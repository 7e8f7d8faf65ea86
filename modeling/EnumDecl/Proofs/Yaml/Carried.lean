import EnumDecl.Proofs.Yaml.Written
import EnumDecl.Yaml.Reader

/-!
# What a text carries

One value is *carried* as another one if it is written as a text that is read as the other one
(`Carried`). Scalars are carried as themselves, only that not-a-number becomes the one that a text
has. Objects are carried field by field and lists of objects item by item, and an object as a
document is read back as what it is carried as (`read_write`).
-/

namespace EnumDecl.Yaml

namespace Part

/-- A value that is cut into its tokens where it is written, and read from them. -/
structure Passes (bound : Nat) (q : Part) : Prop where
  scans : q.Scans bound
  reads : q.Reads
  refers : q.Refers

/-- The fields of an object that pass. -/
structure FieldsPass (bound : Nat) (fs : List Field) : Prop where
  nonempty : fs ≠ []
  distinct : (fs.map (·.1)).Nodup
  names : ∀ e ∈ fs, IsFieldName e.1.toList
  values : ∀ e ∈ fs, e.2.Passes bound

variable {bound : Nat} {fs : List Field} {rs : List (List Field)}

theorem FieldsPass.scan (h : FieldsPass bound fs) : ∀ e ∈ fs, FieldScans bound e :=
  fun e he => ⟨h.names e he, (h.values e he).scans⟩

theorem FieldsPass.read (h : FieldsPass bound fs) : ∀ e ∈ fs, FieldReads e :=
  fun e he => ⟨(h.names e he).text, (h.values e he).reads⟩

theorem passes_empty : Passes bound empty := ⟨scans_empty, reads_empty, refers_empty⟩

theorem passes_object (h : FieldsPass (bound + 2) fs) : (object fs).Passes bound :=
  ⟨scans_object h.scan h.nonempty, reads_object h.read h.distinct,
    refers_object fun e he => (h.values e he).refers⟩

theorem passes_rows (h : ∀ fs ∈ rs, FieldsPass (bound + 2) fs) (hne : rs ≠ []) :
    (rows rs).Passes bound :=
  ⟨scans_rows (fun fs hfs => ⟨(h fs hfs).scan, (h fs hfs).nonempty⟩) hne,
    reads_rows (fun fs hfs => ⟨(h fs hfs).read, (h fs hfs).distinct⟩) hne,
    refers_rows fun fs hfs e he => ((h fs hfs).values e he).refers⟩

end Part

/-- A value under a key that is read as another one, up to some depth. -/
def Carried (bound : Nat) (v w : Value) : Prop :=
  ∃ q : Part, q.value = v ∧ q.read = w ∧ q.Passes bound

/-! ## Scalars -/

variable {bound : Nat} {v w read : Value} {cs : List Char}

/-- A value that is written plain. -/
theorem carried_plain (written : Value) (h : StandsFor cs read) (hmeets : ∀ s, meet v s = s)
    (hrefers : ∀ done, refer [] v done = (written, done)) (hwritable : written.isWritable = true)
    (hw : ∀ indent k, valueChars indent k written
      = ' ' :: plainChars (inside indent (afterKey indent k + 1)) cs) : Carried bound v read :=
  ⟨⟨v, written, [.scalar cs true], .scalar (.scalar (resolve cs)) cs, read⟩, rfl, rfl,
    Part.scans_plain h.plain fun indent k => ⟨_, rfl, hw indent k⟩, Part.reads_scalar rfl h.value,
    hmeets, hrefers, hwritable⟩

theorem allowsPlain_of_styleOf {asKey : Bool} (h : styleOf asKey cs = .plain) :
    allowsPlain cs = true := by
  unfold styleOf at h
  split at h
  · assumption
  · split at h <;> exact absurd h (by simp)

theorem allowsSingle_of_styleOf {asKey : Bool} (h : styleOf asKey cs = .single) :
    allowsSingle asKey cs = true := by
  unfold styleOf at h
  split at h
  · exact absurd h (by simp)
  · split at h
    · assumption
    · exact absurd h (by simp)

theorem valueChars_text (indent : Nat) (k : Value) (s : String) : valueChars indent k (.text s)
    = ' ' :: textChars (inside indent (afterKey indent k + 1)) false s.toList := rfl

/-- What stands in quotes is a text. -/
theorem carried_quoted {s : String} (h : Part.Scans bound
      ⟨.text s, .text s, [.scalar s.toList false], .scalar (.scalar .text) s.toList, .text s⟩) :
    Carried bound (.text s) (.text s) := by
  have hvalue : scalarValue .text s.toList = .ok (.text s) := by
    rw [scalarValue, String.ofList_toList]
  exact ⟨_, rfl, rfl, h, Part.reads_scalar rfl hvalue, fun _ => rfl, fun _ => rfl, rfl⟩

theorem carried_single {s : String} (hstyle : styleOf false s.toList = .single) :
    Carried bound (.text s) (.text s) := by
  have hsingle := allowsSingle_of_styleOf hstyle
  simp only [allowsSingle, Bool.and_eq_true, List.all_eq_true, Bool.not_eq_true', Bool.or_eq_true,
    beq_iff_eq] at hsingle
  obtain ⟨⟨ho, hfeed⟩, -⟩ := hsingle
  have hflat : (runs s.toList).flatten = s.toList := flatten_runs _
  rw [← hflat] at ho hfeed
  have hbody : ∀ indent k, valueChars indent k (.text s) = ' ' :: '\x27' :: (singleRuns
      (inside indent (afterKey indent k + 1)) true (afterKey indent k + 1 + 1) (runs s.toList)
        ++ ['\x27']) := by
    intro indent k
    rw [valueChars_text, textChars, hstyle]
    rfl
  refine carried_quoted
    (Part.scans_quoted (by decide) (by decide) (by decide) (fun _ _ => rfl) hbody
    (fun indent k => ?_) fun indent k _ after hafter fuel hf => ?_)
  · exact isPrintable_append.mpr ⟨isPrintable_singleRuns ho _ _, isPrintable_of_all rfl⟩
  · have hread := singleReads_singleRuns (p := inside indent (afterKey indent k + 1)) rfl hafter
      (areRuns_runs s.toList) ho hfeed true (afterKey indent k + 1 + 1)
    rw [List.append_assoc] at hf ⊢
    rw [hflat] at hread
    exact hread _ hf

theorem carried_double (hb : bound + indentStep < lineWidth) {s : String}
    (hstyle : styleOf false s.toList = .double) : Carried bound (.text s) (.text s) := by
  have hbody : ∀ indent k, valueChars indent k (.text s) = ' ' :: '\x22' :: (doubleRest
      (inside indent (afterKey indent k + 1)) true true (afterKey indent k + 1 + 1) s.toList
        ++ ['\x22']) := by
    intro indent k
    rw [valueChars_text, textChars, hstyle]
    rfl
  refine carried_quoted
    (Part.scans_quoted (by decide) (by decide) (by decide) (fun _ _ => rfl) hbody
    (fun indent k => ?_) fun indent k hindent after _ fuel hf => ?_)
  · exact isPrintable_append.mpr ⟨isPrintable_doubleRest _ _ _ _, isPrintable_of_all rfl⟩
  · have hwidth : (inside indent (afterKey indent k + 1)).indent < lineWidth := by
      show indent + indentStep < lineWidth
      omega
    rw [List.append_assoc] at hf ⊢
    exact doubleReads_doubleRest rfl hwidth after s.toList true true _ _ hf

/-- **Every text is carried**, in whatever style it is written. -/
theorem carried_text (hb : bound + indentStep < lineWidth) (s : String) :
    Carried bound (.text s) (.text s) := by
  cases hstyle : styleOf false s.toList with
  | plain =>
    have hplain := allowsPlain_of_styleOf hstyle
    have hresolve : resolve s.toList = .text := by
      rw [allowsPlain, Bool.and_eq_true] at hplain
      exact eq_of_beq hplain.2
    refine carried_plain (.text s) ⟨standsPlain_of_allowsPlain hplain, ?_⟩ (fun _ => rfl)
      (fun _ => rfl) rfl
      fun indent k => ?_
    · rw [hresolve, scalarValue, String.ofList_toList]
    · rw [valueChars_text, textChars, hstyle]
  | single => exact carried_single hstyle
  | double => exact carried_double hb hstyle

/-- A value that is no collection. A mark is on a not-a-number. -/
inductive IsScalar : Value → Prop
  | null : IsScalar .null
  | bool (b : Bool) : IsScalar (.bool b)
  | int {i : Int} (h : Decimal.isWritable i = true) : IsScalar (.int i)
  | float (x : Binary64) : IsScalar (.float x)
  | text (s : String) : IsScalar (.text s)
  | nan (m : Mark) : IsScalar (.marked m (.float .nan))

theorem IsScalar.isData (h : IsScalar v) : Value.IsData (fun _ => .float .nan) v := by
  cases h with
  | null => exact .null
  | bool b => exact .bool b
  | int h => exact .int h
  | float x => exact .float x
  | text s => exact .text s
  | nan m => exact .marked rfl rfl (Or.inr rfl) (.float .nan)

/-- **Scalars are carried**, unless they stand so deep that no line is left for them. -/
theorem carried_scalar (hb : bound + indentStep < lineWidth) (h : IsScalar v) :
    Carried bound v v.reread := by
  cases h with
  | null =>
    exact carried_plain .null ⟨standsPlain_word rfl rfl, rfl⟩ (fun _ => rfl) (fun _ => rfl) rfl
      fun _ _ => rfl
  | bool b =>
    cases b with
    | false =>
      exact carried_plain (.bool false) ⟨standsPlain_word rfl rfl, rfl⟩ (fun _ => rfl)
        (fun _ => rfl) rfl fun _ _ => rfl
    | true =>
      exact carried_plain (.bool true) ⟨standsPlain_word rfl rfl, rfl⟩ (fun _ => rfl)
        (fun _ => rfl) rfl fun _ _ => rfl
  | @int i h =>
    exact carried_plain (.int i) (standsFor_int h) (fun _ => rfl) (fun _ => rfl) h fun _ _ => rfl
  | float x =>
    exact carried_plain (.float x) (standsFor_float x) (fun _ => rfl) (fun _ => rfl) rfl
      fun _ _ => rfl
  | text s => exact carried_text hb s
  | nan m =>
    exact carried_plain (.float .nan) (standsFor_float .nan) (fun _ => rfl) (fun _ => rfl) rfl
      fun _ _ => rfl

/-! ## Objects -/

/-- The fields of an object that are carried, each under its name. -/
structure FieldsCarried (bound : Nat) (es fs : List (String × Value)) : Prop where
  nonempty : es ≠ []
  distinct : (es.map (·.1)).Nodup
  names : ∀ e ∈ es, IsFieldName e.1.toList
  values : List.Forall₂ (fun e f => f.1 = e.1 ∧ Carried bound e.2 f.2) es fs

/-- Fields that are carried are the values of parts that pass. -/
theorem FieldsCarried.exists_fields {es fs : List (String × Value)}
    (h : FieldsCarried bound es fs) :
    ∃ ps : List Field, Part.FieldsPass bound ps ∧ (Part.object ps).value = .object es
      ∧ (Part.object ps).read = .object fs := by
  obtain ⟨ps, hvalues, hreads, hpass⟩ :
      ∃ ps : List Field, (ps.map fun p => (p.1, p.2.value)) = es ∧
      (ps.map fun p => (p.1, p.2.read)) = fs ∧ ∀ p ∈ ps, p.2.Passes bound := by
    have hall := h.values
    clear h
    induction hall with
    | nil => exact ⟨[], rfl, rfl, by simp⟩
    | @cons e f es fs hef _ ih =>
      obtain ⟨ps, rfl, rfl, hpass⟩ := ih
      obtain ⟨key, v⟩ := e
      obtain ⟨key', w⟩ := f
      obtain ⟨rfl, q, rfl, rfl, hq⟩ := hef
      exact ⟨(key', q) :: ps, rfl, rfl, List.forall_mem_cons.mpr ⟨hq, hpass⟩⟩
  subst hvalues hreads
  refine ⟨ps, ⟨?_, ?_, ?_, hpass⟩, rfl, rfl⟩
  · simpa using h.nonempty
  · simpa [List.map_map, Function.comp_def] using h.distinct
  · exact fun e he => h.names _ (List.mem_map.mpr ⟨e, he, rfl⟩)

/-- An object whose fields are carried. -/
def ObjectCarried (bound : Nat) (v w : Value) : Prop :=
  ∃ es fs, v = .object es ∧ w = .object fs ∧ FieldsCarried bound es fs

theorem carried_object (h : ObjectCarried (bound + 2) v w) : Carried bound v w := by
  obtain ⟨es, fs, rfl, rfl, h⟩ := h
  obtain ⟨ps, hpass, hvalue, hread⟩ := h.exists_fields
  exact ⟨_, hvalue, hread, Part.passes_object hpass⟩

/-- **A list of objects is carried item by item.** -/
theorem carried_list {vs ws : List Value} (h : List.Forall₂ (ObjectCarried (bound + 2)) vs ws) :
    Carried bound (.list vs) (.list ws) := by
  obtain ⟨rs, hvalues, hreads, hpass⟩ : ∃ rs : List (List Field),
      (rs.map fun ps => (Part.object ps).value) = vs
      ∧ (rs.map fun ps => (Part.object ps).read) = ws ∧
      ∀ ps ∈ rs, Part.FieldsPass (bound + 2) ps := by
    induction h with
    | nil => exact ⟨[], rfl, rfl, by simp⟩
    | @cons v w vs ws hvw _ ih =>
      obtain ⟨rs, rfl, rfl, hpass⟩ := ih
      obtain ⟨es, fs, rfl, rfl, h⟩ := hvw
      obtain ⟨ps, hps, hvalue, hread⟩ := h.exists_fields
      exact ⟨ps :: rs, by rw [List.map_cons, hvalue], by rw [List.map_cons, hread],
        List.forall_mem_cons.mpr ⟨hps, hpass⟩⟩
  subst hvalues hreads
  cases rs with
  | nil => exact ⟨_, rfl, rfl, Part.passes_empty⟩
  | cons ps rs => exact ⟨_, rfl, rfl, Part.passes_rows hpass (by simp)⟩

/-! ## Documents -/

/-- **An object whose fields are carried is written and read back.** -/
theorem read_write (h : ObjectCarried 0 v w) :
    ∃ text, write v = .ok text ∧ Yaml.read text = .ok w := by
  obtain ⟨es, fs, rfl, rfl, h⟩ := h
  obtain ⟨ps, hpass, hvalue, hread⟩ := h.exists_fields
  have hrefers : (Part.object ps).Refers :=
    Part.refers_object fun e he => (hpass.values e he).refers
  have hfuel : 3 * (Part.object ps).tokens.length ≤ 4 * (Part.object ps).tokens.length + 4 := by
    omega
  have hnode : readNode .block (4 * (Part.object ps).tokens.length + 4)
      ⟨(Part.object ps).tokens ++ [], [], defaultHandles⟩
        = .ok ((Part.object ps).node, ⟨[], [], defaultHandles⟩) :=
    Part.readNode_object hpass.read (by simp) hfuel ⟨[], [], defaultHandles⟩ []
  have htree : Node.ofTokens (Part.object ps).tokens = .ok (some (Part.object ps).node) := by
    rw [List.append_nil] at hnode
    show (readNode .block (4 * (Part.object ps).tokens.length + 4)
      ⟨(Part.object ps).tokens, [], defaultHandles⟩ >>= _) = _
    rw [hnode]
    rfl
  refine ⟨String.ofList (documentChars (Part.object ps).written), ?_, ?_⟩
  · rw [← hvalue, write, hrefers.withReferences]
    exact if_pos hrefers.writable
  · rw [Yaml.read, readChars, String.toList_ofList, Part.tokens_object hpass.scan hpass.nonempty]
    show (Node.ofTokens (Part.object ps).tokens >>= _) = _
    rw [htree]
    show Node.toValue (Part.object ps).node = _
    rw [Node.toValue, (Part.reads_object hpass.read hpass.distinct).value, hread]

end EnumDecl.Yaml
