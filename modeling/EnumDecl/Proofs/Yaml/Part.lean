import EnumDecl.Proofs.Data
import EnumDecl.Yaml.Content
import EnumDecl.Yaml.Reference

/-!
# The parts of a dump in YAML

A value of a dump goes through several forms on its way through a text (`Part`): it gets its
references, is written and cut into tokens, the tokens make a node, and the node stands for a value
again. A part is *read* if the last two steps go through (`Part.Reads`): its tokens make its node
whatever follows them, and the node is a tree of plain parts with the value. This is put together
from the bottom up: scalars and the empty list, objects from their fields, and lists of objects.

The fuel that a reader of nodes needs is three for each token and three more.
-/

namespace EnumDecl.Yaml

/-- The forms of a value of a dump. -/
structure Part where
  /-- The value in the dump. -/
  value : Value
  /-- The value that is written. -/
  written : Value
  tokens : List Token
  node : Node
  /-- The value that is read. -/
  read : Value

/-- A field of an object. -/
abbrev Field : Type := String × Part

namespace Part

/-- The empty list. -/
def empty : Part :=
  ⟨.list [], .list [], [.flowSequenceStart, .flowSequenceEnd], .sequence .sequence [], .list []⟩

/-- The tokens of fields one after another. -/
def fieldTokens (fs : List Field) : List Token :=
  fs.flatMap fun f => .key :: .scalar f.1.toList true :: .value :: f.2.tokens

/-- The entries of fields. -/
def fieldNodes (fs : List Field) : List (Node × Node) :=
  fs.map fun f => (.scalar (.scalar .text) f.1.toList, f.2.node)

/-- An object with some fields. -/
def object (fs : List Field) : Part where
  value := .object (fs.map fun f => (f.1, f.2.value))
  written := .object (fs.map fun f => (f.1, f.2.written))
  tokens := .blockMappingStart :: (fieldTokens fs ++ [.blockEnd])
  node := .mapping .mapping (fieldNodes fs)
  read := .object (fs.map fun f => (f.1, f.2.read))

/-- The tokens of objects that are the items of a list. -/
def rowTokens (rows : List (List Field)) : List Token :=
  rows.flatMap fun fs => .blockEntry :: (object fs).tokens

/-- A list of objects under a key. -/
def rows (rows : List (List Field)) : Part where
  value := .list (rows.map fun fs => (object fs).value)
  written := .list (rows.map fun fs => (object fs).written)
  tokens := rowTokens rows
  node := .sequence .sequence (rows.map fun fs => (object fs).node)
  read := .list (rows.map fun fs => (object fs).read)

end Part

/-! ## From tokens to nodes -/

/-- What a node begins with that has neither a name nor a tag. -/
def Token.startsContent : Token → Bool
  | .scalar _ _ => true
  | .flowSequenceStart => true
  | .blockEntry => true
  | .blockMappingStart => true
  | _ => false

/-- What follows the value of a field: another field, or the end of the object. -/
def EndsValue (rest : List Token) : Prop := ∃ t ts, rest = t :: ts ∧ (t = .key ∨ t = .blockEnd)

/-- A value whose tokens make its node, which stands for the value that is read. -/
structure Part.Reads (q : Part) : Prop where
  starts : ∃ t ts, q.tokens = t :: ts ∧ t.startsContent = true
  parses : ∀ (fuel : Nat) (f : Feed) (rest : List Token), 3 * q.tokens.length + 3 ≤ fuel →
    EndsValue rest →
    readNode .underKey fuel (f.withTokens (q.tokens ++ rest)) = .ok (q.node, f.withTokens rest)
  value : q.node.toValue? = some q.read

variable {t : Token} {rest : List Token} {position : Position} {fuel : Nat} {f : Feed}

/-- A node without properties is its content. -/
theorem readNode_content (h : t.startsContent = true) (position : Position) (fuel : Nat) (f : Feed)
    (rest : List Token) : readNode position (fuel + 1) (f.withTokens (t :: rest))
      = readContent position none false fuel (f.withTokens (t :: rest)) := by
  have hnamed : ∀ r : Except Fault (Node × Feed),
      (r >>= fun p => pure (p.1.named none, p.2)) = r := by
    intro r
    cases r <;> rfl
  cases t with
  | scalar text isPlain => exact hnamed _
  | flowSequenceStart => exact hnamed _
  | blockEntry => exact hnamed _
  | blockMappingStart => exact hnamed _
  | _ => exact absurd h (by simp [Token.startsContent])

/-- A scalar is read wherever it stands. -/
theorem readNode_scalar (hf : 2 ≤ fuel) (position : Position) (f : Feed) (text : List Char)
    (isPlain : Bool)
    (rest : List Token) : readNode position fuel (f.withTokens (.scalar text isPlain :: rest))
      = .ok (.scalar (scalarTag none isPlain text) text, f.withTokens rest) := by
  obtain ⟨fuel, rfl⟩ : ∃ n, fuel = n + 2 := ⟨fuel - 2, by omega⟩
  rw [readNode_content rfl]
  rfl

namespace Part

/-- **A scalar** makes one token. -/
theorem reads_scalar {value written read : Value} {text : List Char} {isPlain : Bool} {form : Form}
    (hform : scalarTag none isPlain text = .scalar form) (h : scalarValue form text = .ok read) :
    Reads ⟨value, written, [.scalar text isPlain], .scalar (.scalar form) text, read⟩ := by
  refine ⟨⟨_, _, rfl, rfl⟩, fun fuel f rest hf _ => ?_, ?_⟩
  · rw [← hform]
    exact readNode_scalar (by simp at hf; omega) .underKey f text isPlain rest
  · rw [Node.toValue?, h]
    rfl

theorem reads_empty : Reads empty := by
  refine ⟨⟨_, _, rfl, rfl⟩, fun fuel f rest hf _ => ?_, rfl⟩
  obtain ⟨fuel, rfl⟩ : ∃ n, fuel = n + 3 := ⟨fuel - 3, by omega⟩
  show readNode .underKey (fuel + 3)
    (f.withTokens (.flowSequenceStart :: .flowSequenceEnd :: rest)) = _
  rw [readNode_content rfl]
  rfl

/-! ## Objects -/

variable {fs : List Field}

theorem fieldTokens_cons (e : Field) (fs : List Field) : fieldTokens (e :: fs)
    = .key :: .scalar e.1.toList true :: .value :: (e.2.tokens ++ fieldTokens fs) := by
  simp [fieldTokens]

theorem endsValue_fieldTokens (fs : List Field) (rest : List Token) :
    EndsValue (fieldTokens fs ++ .blockEnd :: rest) := by
  cases fs with
  | nil => exact ⟨.blockEnd, rest, rfl, Or.inr rfl⟩
  | cons e fs =>
    rw [fieldTokens_cons]
    exact ⟨.key, _, rfl, Or.inl rfl⟩

/-- A field that is read: its key stands for a text. -/
structure FieldReads (e : Field) : Prop where
  key : resolve e.1.toList = .text
  value : e.2.Reads

/-- The value behind a colon. -/
theorem readValue_part {q : Part} (h : q.Reads) (hrest : EndsValue rest)
    (hf : 3 * q.tokens.length + 3 ≤ fuel) (f : Feed) :
    readValue (fuel + 1) (f.withTokens (.value :: (q.tokens ++ rest)))
      = .ok (q.node, f.withTokens rest) := by
  obtain ⟨t, ts, hq, ht⟩ := h.starts
  have hread := h.parses fuel f rest hf hrest
  rw [hq, List.cons_append] at hread ⊢
  have hends : endsPair (t :: (ts ++ rest)) = false := by
    cases t <;> first | rfl | exact absurd ht (by simp [Token.startsContent])
  rw [readValue]
  show (if endsPair (t :: (ts ++ rest)) then _
    else readNode .underKey fuel (f.withTokens (t :: (ts ++ rest)))) = _
  rw [hends, hread]
  rfl

/-- **Fields are read one after another.** -/
theorem readEntries_fieldTokens (h : ∀ e ∈ fs, FieldReads e)
    (hf : 3 * (fieldTokens fs).length + 1 ≤ fuel) (f : Feed) (rest : List Token) :
    readEntries fuel (f.withTokens (fieldTokens fs ++ .blockEnd :: rest))
      = .ok (fieldNodes fs, f.withTokens rest) := by
  induction fs generalizing fuel with
  | nil =>
    obtain ⟨fuel, rfl⟩ : ∃ n, fuel = n + 1 := ⟨fuel - 1, by omega⟩
    rfl
  | cons e fs ih =>
    obtain ⟨hkey, hvalue⟩ := h e List.mem_cons_self
    rw [fieldTokens_cons] at hf ⊢
    simp only [List.length_cons, List.length_append] at hf
    obtain ⟨fuel, rfl⟩ : ∃ n, fuel = n + 2 := ⟨fuel - 2, by omega⟩
    have hname := readNode_scalar (by omega : 2 ≤ fuel + 1) .underKey f e.1.toList true
      (.value :: (e.2.tokens ++ (fieldTokens fs ++ .blockEnd :: rest)))
    have hread := readValue_part hvalue (endsValue_fieldTokens fs rest)
      (by omega : 3 * e.2.tokens.length + 3 ≤ fuel) f
    have hothers := ih (fun e he => h e (List.mem_cons_of_mem _ he))
      (by omega : 3 * (fieldTokens fs).length + 1 ≤ fuel + 1)
    rw [show scalarTag none true e.1.toList
      = .scalar .text by rw [scalarTag, if_pos rfl, hkey]] at hname
    simp only [List.cons_append, List.append_assoc]
    rw [readEntries]
    simp only [Feed.withTokens] at hname hread hothers ⊢
    simp only [endsPair, Bool.false_eq_true, if_false, bind, Except.bind, hname, hread, hothers]
    rfl

/-- An object is read in a list as well as under a key, and whatever follows it. -/
theorem readNode_object (h : ∀ e ∈ fs, FieldReads e) (hp : position ≠ .flow)
    (hf : 3 * (object fs).tokens.length ≤ fuel) (f : Feed) (rest : List Token) :
    readNode position fuel (f.withTokens ((object fs).tokens ++ rest))
      = .ok ((object fs).node, f.withTokens rest) := by
  simp only [object, List.length_cons, List.length_append, List.length_nil] at hf
  obtain ⟨fuel, rfl⟩ : ∃ n, fuel = n + 2 := ⟨fuel - 2, by omega⟩
  have hentries :=
    readEntries_fieldTokens h (by omega : 3 * (fieldTokens fs).length + 1 ≤ fuel) f rest
  rw [show (object fs).tokens ++ rest
    = .blockMappingStart :: (fieldTokens fs ++ .blockEnd :: rest) by
    simp [object], readNode_content rfl]
  cases position with
  | flow => exact absurd rfl hp
  | block =>
    show (readEntries fuel (f.withTokens (fieldTokens fs ++ .blockEnd :: rest)) >>= _) = _
    rw [hentries]
    rfl
  | underKey =>
    show (readEntries fuel (f.withTokens (fieldTokens fs ++ .blockEnd :: rest)) >>= _) = _
    rw [hentries]
    rfl

/-- What fields stand for, each under its name. -/
theorem entryValues?_fieldNodes (h : ∀ e ∈ fs, FieldReads e) :
    entryValues? (fieldNodes fs) = some ((fs.map fun e => (e.1, e.2.read)).map Value.keyed) := by
  induction fs with
  | nil => rfl
  | cons e fs ih =>
    have hrest := ih fun e he => h e (List.mem_cons_of_mem _ he)
    have hkey : (Node.scalar (.scalar .text) e.1.toList).toValue? = some (.text e.1) := by
      rw [Node.toValue?, scalarValue, String.ofList_toList]
      rfl
    rw [fieldNodes] at hrest ⊢
    rw [List.map_cons, entryValues?, hkey, (h e List.mem_cons_self).value.value, hrest]
    rfl

/-- Entries whose keys are all different stay as they are. -/
theorem mappingOf_keyed {es : List (String × Value)} (h : (es.map (·.1)).Nodup) :
    mappingOf (es.map Value.keyed) = es.map Value.keyed := by
  -- `bs` are the entries that were put in before
  have hfold : ∀ bs es : List (String × Value), ((bs ++ es).map (·.1)).Nodup →
      (es.map Value.keyed).foldl (fun done e => Value.insert e.1 e.2 done) (bs.map Value.keyed)
        = (bs ++ es).map Value.keyed := by
    intro bs es
    induction es generalizing bs with
    | nil => exact fun _ => by rw [List.append_nil]; rfl
    | cons e es ih =>
      intro hnodup
      have hnew : e.1 ∉ bs.map (·.1) := by
        rw [List.map_append] at hnodup
        exact fun hm => List.disjoint_of_nodup_append hnodup hm (by simp)
      have hassoc : (bs ++ [e]) ++ es = bs ++ e :: es := by simp
      have hrest := ih (bs ++ [e]) (by rw [hassoc]; exact hnodup)
      rw [hassoc, ← Value.insert_keyed hnew] at hrest
      exact hrest
  exact hfold [] es h

/-- **An object** is read from its fields, which have different names. -/
theorem reads_object (h : ∀ e ∈ fs, FieldReads e) (hnodup : (fs.map (·.1)).Nodup) :
    (object fs).Reads := by
  refine ⟨⟨_, _, rfl, rfl⟩, fun fuel f rest hf _ =>
    readNode_object h (by simp) (by omega) f rest, ?_⟩
  have hkeys : ((fs.map fun e => (e.1, e.2.read)).map (·.1)).Nodup := by
    rw [List.map_map]
    exact hnodup
  rw [show (object fs).node = .mapping .mapping (fieldNodes fs) from rfl, Node.toValue?,
    entryValues?_fieldNodes h, Option.map_some, mappingOf_keyed hkeys]
  rfl

/-! ## Lists of objects -/

variable {rs : List (List Field)}

/-- The rows of a list, each of which has fields that are read and have different names. -/
def RowsRead (rs : List (List Field)) : Prop :=
  ∀ fs ∈ rs, (∀ e ∈ fs, FieldReads e) ∧ (fs.map (·.1)).Nodup

theorem rowTokens_cons (fs : List Field) (rs : List (List Field)) :
    rowTokens (fs :: rs) = .blockEntry :: ((object fs).tokens ++ rowTokens rs) := rfl

theorem readIndentless_rowTokens (h : RowsRead rs) (hf : 3 * (rowTokens rs).length + 1 ≤ fuel)
    (f : Feed) (hrest : EndsValue rest) : readIndentless fuel (f.withTokens (rowTokens rs ++ rest))
      = .ok (rs.map fun fs => (object fs).node, f.withTokens rest) := by
  induction rs generalizing fuel with
  | nil =>
    obtain ⟨fuel, rfl⟩ : ∃ n, fuel = n + 1 := ⟨fuel - 1, by omega⟩
    obtain ⟨t, ts, rfl, rfl | rfl⟩ := hrest <;> rfl
  | cons fs rs ih =>
    rw [rowTokens_cons] at hf ⊢
    simp only [List.length_cons, List.length_append] at hf
    obtain ⟨fuel, rfl⟩ : ∃ n, fuel = n + 1 := ⟨fuel - 1, by omega⟩
    have hitem := readNode_object (h fs List.mem_cons_self).1 (by simp : Position.block ≠ .flow)
      (by omega : 3 * (object fs).tokens.length ≤ fuel) f (rowTokens rs ++ rest)
    have hothers := ih (fun fs hfs => h fs (List.mem_cons_of_mem _ hfs))
      (by omega : 3 * (rowTokens rs).length + 1 ≤ fuel)
    -- an item is never empty, so a node is read for it
    have hends : endsIndentless ((object fs).tokens ++ (rowTokens rs ++ rest)) = false := rfl
    rw [List.cons_append, List.append_assoc, readIndentless]
    simp only [Feed.withTokens] at hitem hothers ⊢
    simp only [hends, Bool.false_eq_true, if_false, bind, Except.bind, hitem, hothers]
    rfl

/-- **A list of objects** is read from them. -/
theorem reads_rows (h : RowsRead rs) (hne : rs ≠ []) : (rows rs).Reads := by
  obtain ⟨fs, rs', hrs⟩ := List.exists_cons_of_ne_nil hne
  refine ⟨⟨.blockEntry, (object fs).tokens ++ rowTokens rs', by rw [hrs]; rfl, rfl⟩, ?_, ?_⟩
  · intro fuel f rest hf hrest
    obtain ⟨fuel, rfl⟩ : ∃ n, fuel = n + 2 := ⟨fuel - 2, by omega⟩
    have hfuel : 3 * (rowTokens rs).length + 1 ≤ fuel := by
      simp only [rows] at hf
      omega
    have hitems := readIndentless_rowTokens h hfuel f hrest
    have htokens : (rows rs).tokens ++ rest
        = .blockEntry :: ((object fs).tokens ++ rowTokens rs' ++ rest) := by rw [hrs]; rfl
    rw [show rowTokens rs = (rows rs).tokens from rfl, htokens] at hitems
    rw [htokens, readNode_content rfl]
    show (readIndentless fuel
      (f.withTokens (.blockEntry :: ((object fs).tokens ++ rowTokens rs' ++ rest)))
      >>= _) = _
    rw [hitems]
    rfl
  · have hitems : itemValues? (rs.map fun fs => (object fs).node)
        = some (rs.map fun fs => (object fs).read) := by
      clear hrs hne
      induction rs with
      | nil => rfl
      | cons fs rs ih =>
        obtain ⟨hfields, hnodup⟩ := h fs List.mem_cons_self
        rw [List.map_cons, itemValues?, (reads_object hfields hnodup).value,
          ih fun fs hfs => h fs (List.mem_cons_of_mem _ hfs)]
        rfl
    rw [show (rows rs).node = .sequence .sequence (rs.map fun fs => (object fs).node) from rfl,
      Node.toValue?, hitems]
    rfl

/-! ## References -/

/-- A value in which nothing stands twice, so that only marks are lost when it gets its references,
and which holds no integer that is too long. -/
structure Refers (q : Part) : Prop where
  meets : ∀ s, meet q.value s = s
  refers : ∀ done, refer [] q.value done = (q.written, done)
  writable : q.written.isWritable = true

theorem Refers.withReferences {q : Part} (h : q.Refers) : withReferences q.value = q.written := by
  rw [Yaml.withReferences, h.meets]
  exact congrArg Prod.fst (h.refers [])

theorem refers_empty : Refers empty := ⟨fun _ => rfl, fun _ => rfl, rfl⟩

theorem refers_object (h : ∀ e ∈ fs, e.2.Refers) : (object fs).Refers := by
  have hentries : (∀ s, meetEntries ((fs.map fun e => (e.1, e.2.value)).map Value.keyed) s = s) ∧
      (∀ done, referEntries [] ((fs.map fun e => (e.1, e.2.value)).map Value.keyed) done
        = ((fs.map fun e => (e.1, e.2.written)).map Value.keyed, done)) ∧
      Value.entriesWritable ((fs.map fun e => (e.1, e.2.written)).map Value.keyed) = true := by
    induction fs with
    | nil => exact ⟨fun _ => rfl, fun _ => rfl, rfl⟩
    | cons e fs ih =>
      obtain ⟨hmeet, hrefer, hwritable⟩ := ih fun e he => h e (List.mem_cons_of_mem _ he)
      have hvalue := h e List.mem_cons_self
      refine ⟨fun s => ?_, fun done => ?_, ?_⟩
      · show meetEntries _ (meet e.2.value s) = s
        rw [hvalue.meets, hmeet]
      · simp only [List.map_cons, Value.keyed, referEntries, refer, hvalue.refers]
        exact congrArg (fun r => (_ :: r.1, r.2)) (hrefer done)
      · simp only [List.map_cons, Value.keyed, Value.entriesWritable, Value.isWritable,
          hvalue.writable, Bool.true_and]
        exact hwritable
  obtain ⟨hmeet, hrefer, hwritable⟩ := hentries
  refine ⟨hmeet, fun done => ?_, hwritable⟩
  show refer [] (.mapping ((fs.map fun e => (e.1, e.2.value)).map Value.keyed)) done = _
  rw [refer, hrefer]
  rfl

theorem refers_rows (h : ∀ fs ∈ rs, ∀ e ∈ fs, e.2.Refers) : (rows rs).Refers := by
  have hitems : (∀ s, meetItems (rs.map fun fs => (object fs).value) s = s) ∧
      (∀ done, referItems [] (rs.map fun fs => (object fs).value) done
        = (rs.map fun fs => (object fs).written, done)) ∧
      Value.areWritable (rs.map fun fs => (object fs).written) = true := by
    induction rs with
    | nil => exact ⟨fun _ => rfl, fun _ => rfl, rfl⟩
    | cons fs rs ih =>
      obtain ⟨hmeet, hrefer, hwritable⟩ := ih fun fs hfs => h fs (List.mem_cons_of_mem _ hfs)
      have hobject := refers_object (h fs List.mem_cons_self)
      refine ⟨fun s => ?_, fun done => ?_, ?_⟩
      · rw [List.map_cons, meetItems, hobject.meets, hmeet]
      · simp only [List.map_cons, referItems, hobject.refers, hrefer]
      · rw [List.map_cons, Value.areWritable, hobject.writable, hwritable]
        rfl
  obtain ⟨hmeet, hrefer, hwritable⟩ := hitems
  refine ⟨hmeet, fun done => ?_, hwritable⟩
  rw [show (rows rs).value = .list (rs.map fun fs => (object fs).value) from rfl, refer, hrefer]
  rfl

end Part

end EnumDecl.Yaml
