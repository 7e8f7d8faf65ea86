import EnumDecl.Proofs.Yaml.Float
import EnumDecl.Proofs.Yaml.Part
import EnumDecl.Proofs.Yaml.Token

/-!
# What is written is cut into its tokens

A part of a dump is *scanned* if what is written for it under a key leads to its tokens, whatever
stands behind it (`Part.Scans`). How deep the key is indented is bounded: far beyond that no line
would be left to write in. As with the nodes, this goes from scalars to objects and lists of
objects.
-/

namespace EnumDecl.Yaml

open Spot (Leads)

/-! ## Keys -/

variable {k : List Char}

theorem IsFieldName.isWord (h : IsFieldName k) : IsWord k := by
  refine ⟨h.nonempty, fun c hc => ?_⟩
  obtain ⟨ho, -, hs, -⟩ := h.ordinary hc
  refine ⟨hs, ?_⟩
  rintro rfl
  exact absurd ho (by decide)

/-- A field name is written as it is. -/
theorem IsFieldName.allowsPlain (h : IsFieldName k) : Yaml.allowsPlain k = true := by
  have hchars : ∀ c ∈ k, c ≠ ':' ∧ c ≠ '#' := fun c hc => by
    obtain ⟨-, hi, -, hcolon, -⟩ := h.ordinary hc
    exact ⟨hcolon, ne_of_isIndicator hi rfl⟩
  have hspace : ∀ c ∈ k, c ≠ ' ' := fun c hc => (h.ordinary hc).2.2.1
  have hfirst : k.head? ≠ some ' ' := fun hf => hspace _ (List.mem_of_mem_head? hf) rfl
  have hlast : k.getLast? ≠ some ' ' := fun hl => hspace _ (List.mem_of_getLast? hl) rfl
  have hall : k.all isOrdinary = true := List.all_eq_true.mpr fun c hc => (h.ordinary hc).1
  obtain ⟨c, cs, rfl⟩ := h.exists_cons
  obtain ⟨-, hi, -, hcolon, hdash, hquestion, hpoint⟩ := h.ordinary (c := c) List.mem_cons_self
  have hstart : startsPlain (c :: cs) = true := by simp [startsPlain, hi, hcolon, hdash, hquestion]
  have hmarker : startsLikeMarker (c :: cs) = false := by
    simp [startsLikeMarker, List.isPrefixOf, Ne.symm hdash, Ne.symm hpoint]
  have hne1 : ((c :: cs).head? != some ' ') = true := bne_iff_ne.mpr hfirst
  have hne2 : ((c :: cs).getLast? != some ' ') = true := bne_iff_ne.mpr hlast
  rw [Yaml.allowsPlain, hstart, hmarker, hall, hne1, hne2, keepsWhole_of_ne hchars, h.text]
  rfl

/-- A key that is a field name stands on the line of its value. -/
theorem isSimpleKey_field {k : String} (h : IsFieldName k.toList) :
    isSimpleKey (.text k) = true := by
  have hshort := h.short
  have hempty : k.toList.isEmpty = false := by simp [h.nonempty]
  have hfeeds : k.toList.any isFeed = false := by
    rw [List.any_eq_false]
    intro c hc
    have hbreak := isBreak_of_isOrdinary (h.ordinary hc).1
    rw [isBreak, Bool.or_eq_false_iff] at hbreak
    simp [hbreak.2]
  have hlt : propertyLength (.text k) + (plainForms (.text k)).length < keyLimit := by
    show 5 + k.toList.length < 128
    omega
  unfold isSimpleKey
  dsimp only
  rw [decide_eq_true hlt]
  show (true && !k.toList.isEmpty && !k.toList.any isFeed) = true
  rw [hempty, hfeeds]
  rfl

theorem keyChars_field {k : String} (h : IsFieldName k.toList) (indent : Nat) :
    keyChars indent (.text k) = k.toList ++ [':'] := by
  have hstyle : styleOf true k.toList = .plain := if_pos h.allowsPlain
  rw [keyChars, isSimpleKey_field h, if_pos rfl, scalarChars, textChars, hstyle]
  show plainChars _ k.toList ++ [':'] = _
  rw [plainChars, runs_word h.isWord, plainRuns_word h.isWord, plainRuns, List.append_nil]

/-! ## Under a key -/

/-- A value that is cut into its tokens where it stands under a key. -/
structure Part.Scans (bound : Nat) (q : Part) : Prop where
  blank : ∀ (indent : Nat) (k : String) (after : List Char), IsFieldName k.toList →
    blankNext (valueChars indent (.text k) q.written ++ after) = true
  printable : ∀ (indent : Nat) (k : String), IsFieldName k.toList →
    IsPrintable (valueChars indent (.text k) q.written)
  leads : ∀ (indent n column : Nat) (k : String) (tail : List Char) (T : List Token)
    (outer : List Int),
    indent ≤ bound → IsFieldName k.toList → n ≤ indent → indent ≤ column → Resumes tail →
    Leads ⟨valueChars indent (.text k) q.written ++ (newLine n ++ tail), column, T, indent,
    outer, false⟩
      ⟨tail, n, q.tokens.reverse ++ T, indent, outer, true⟩

namespace Part

variable {bound : Nat} {value written read : Value} {node : Node} {cs : List Char}

/-- **A plain text** behind a space. -/
theorem scans_plain (h : StandsPlain cs)
    (hw : ∀ indent k, ∃ p : Place, p.indent = indent + 2 ∧
      valueChars indent k written = ' ' :: plainChars p cs) :
    Scans bound ⟨value, written, [.scalar cs true], node, read⟩ := by
  refine ⟨fun indent k after _ => ?_, fun indent k _ => ?_, ?_⟩
  · obtain ⟨p, -, hp⟩ := hw indent (.text k)
    rw [hp]
    rfl
  · obtain ⟨p, -, hp⟩ := hw indent (.text k)
    rw [hp]
    exact isPrintable_cons.mpr ⟨Or.inr rfl, isPrintable_plainRuns
      (by rw [flatten_runs]; exact fun c hc => Or.inr (h.ordinary c hc)) _⟩
  · intro indent n column k tail T outer _ _ hn hcolumn ht
    obtain ⟨p, hindent, hp⟩ := hw indent (.text k)
    have hbounded : Bounded p ((indent : Int) + 1) n := ⟨by omega, by omega, by omega⟩
    rw [hp]
    have hinside : (indent : Int) ≤ ((column + 1 : Nat) : Int) := by omega
    exact (Spot.leads_space (beginsToken_plainChars h rfl)).trans
      (leads_plain h hbounded ht (Nat.succ_pos _) hinside)

/-- **A text in quotes** behind a space. -/
theorem scans_quoted {q : Char} {quoted : (fuel : Nat) → List Char → TextStep} {text : List Char}
    {body : Nat → Value → List Char} (hordinary : isOrdinary q = true) (hspace : q ≠ ' ')
    (hhash : q ≠ '#') (htoken : ∀ s : Scan, ∀ cs, s.token q cs = s.quoted quoted)
    (hw : ∀ indent k, valueChars indent k written = ' ' :: q :: body indent k)
    (hprint : ∀ indent k, IsPrintable (body indent k))
    (hread : ∀ indent k, indent ≤ bound → ∀ after : List Char, after.head? ≠ some q → ∀ fuel,
      (body indent k ++ after).length ≤ fuel →
      quoted fuel (body indent k ++ after) = .ok (text, after)) :
    Scans bound ⟨value, written, [.scalar text false], node, read⟩ := by
  refine ⟨fun indent k after _ => ?_, fun indent k _ => ?_, ?_⟩
  · rw [hw]
    rfl
  · rw [hw]
    exact isPrintable_cons.mpr
      ⟨Or.inr rfl, isPrintable_cons.mpr ⟨Or.inr hordinary, hprint indent (.text k)⟩⟩
  · intro indent n column k tail T outer hb _ _ hcolumn ht
    have hbegins : ∀ cs, BeginsToken (q :: cs) := beginsToken_of_isOrdinary hordinary hspace hhash
    have hq : (newLine n ++ tail).head? ≠ some q := by
      rw [newLine, List.cons_append, List.head?_cons]
      intro h
      cases h
      exact absurd hordinary (by decide)
    have hinside : (indent : Int) ≤ ((column + 1 : Nat) : Int) := by omega
    rw [hw]
    exact (Spot.leads_space (hbegins _)).trans
      (leads_quoted hbegins htoken (hread indent (.text k) hb _ hq) ht hinside)

/-- **An empty list** behind a space. -/
theorem scans_empty : Scans bound empty := by
  have hwritten : ∀ indent k, valueChars indent (.text k) (.list []) = [' ', '[', ']'] :=
    fun _ _ => rfl
  refine ⟨fun indent k after _ => rfl, fun indent k _ => ?_, ?_⟩
  · exact isPrintable_of_all rfl
  · intro indent n column k tail T outer _ _ _ hcolumn ht
    have hlist : valueChars indent (.text k) empty.written = [' ', '[', ']'] := hwritten indent k
    rw [hlist]
    have hinside : (indent : Int) ≤ ((column + 1 : Nat) : Int) := by omega
    exact (Spot.leads_space
      (beginsToken_of_isOrdinary (by decide) (by decide) (by decide) _)).trans
      (leads_brackets ht hinside)

/-! ## Objects and lists of objects -/

/-- A field that is scanned. -/
structure FieldScans (bound : Nat) (e : Field) : Prop where
  name : IsFieldName e.1.toList
  value : e.2.Scans bound

variable {fs : List Field} {c n : Nat} {T T' : List Token} {indent : Int} {outer outer' : List Int}
  {tail : List Char}

/-- The entries that are written for fields. -/
def fieldChars (indent : Nat) (fs : List Field) : List Char :=
  entriesChars indent ((fs.map fun e => (e.1, e.2.written)).map Value.keyed)

theorem fieldChars_cons (indent : Nat) (e : Field) (fs : List Field) : fieldChars indent (e :: fs)
    = keyChars indent (.text e.1) ++ valueChars indent (.text e.1) e.2.written
      ++ (if fs.isEmpty then [] else newLine indent) ++ fieldChars indent fs := by
  rw [fieldChars, List.map_cons, List.map_cons, entriesChars, List.isEmpty_map, List.isEmpty_map]
  rfl

/-- A field is begun with its name. -/
theorem resumes_fieldChars {e : Field} (h : IsFieldName e.1.toList) (indent : Nat)
    (fs : List Field) (after : List Char) : Resumes (fieldChars indent (e :: fs) ++ after) := by
  rw [fieldChars_cons, keyChars_field h]
  simp only [List.append_assoc]
  refine ⟨h.beginsToken _, ?_⟩
  obtain ⟨d, ds, hd⟩ := h.exists_cons
  obtain ⟨-, -, -, -, hdash, -, hpoint⟩ :=
    h.ordinary (c := d) (by rw [hd]; exact List.mem_cons_self)
  rw [hd]
  simp [atMarker, List.isPrefixOf, Ne.symm hdash, Ne.symm hpoint]

theorem isPrintable_fieldChars (h : ∀ e ∈ fs, FieldScans bound e) (indent : Nat) :
    IsPrintable (fieldChars indent fs) := by
  induction fs with
  | nil => exact isPrintable_nil
  | cons e fs ih =>
    obtain ⟨hname, hvalue⟩ := h e List.mem_cons_self
    have hkey : IsPrintable (e.1.toList ++ [':']) := isPrintable_append.mpr
      ⟨fun c hc => Or.inr (hname.ordinary hc).1, isPrintable_of_all rfl⟩
    have hline : IsPrintable (if fs.isEmpty then [] else newLine indent) := by
      split
      · exact isPrintable_nil
      · exact isPrintable_newLine indent
    rw [fieldChars_cons, keyChars_field hname]
    simp only [isPrintable_append] at hkey ⊢
    exact ⟨⟨⟨hkey, hvalue.printable indent e.1 hname⟩, hline⟩,
      ih fun e he => h e (List.mem_cons_of_mem _ he)⟩

/-- **Fields are scanned one after another**, the first of which may open their object. -/
theorem leads_fieldChars (h : ∀ e ∈ fs, FieldScans bound e) (hne : fs ≠ []) (hc : c ≤ bound)
    (hn : n ≤ c) (ht : Resumes tail) (ho : Opens c T indent outer T' outer') :
    Leads ⟨fieldChars c fs ++ (newLine n ++ tail), c, T, indent, outer, true⟩
      ⟨tail, n, (fieldTokens fs).reverse ++ T', c, outer', true⟩ := by
  induction fs generalizing T T' indent outer outer' with
  | nil => exact absurd rfl hne
  | cons e fs ih =>
    obtain ⟨hname, hvalue⟩ := h e List.mem_cons_self
    have hcolumn : c ≤ c + e.1.toList.length + 1 := by omega
    rw [fieldChars_cons, keyChars_field hname]
    simp only [List.append_assoc, List.cons_append, List.nil_append]
    refine (leads_key hname (hvalue.blank c e.1 _ hname) ho).trans ?_
    -- behind the last value stands the line after the object, behind any other the next field
    cases fs with
    | nil =>
      have hlead :=
        hvalue.leads c n _ e.1 tail (.value :: .scalar e.1.toList true :: .key :: T') outer' hc
        hname hn hcolumn ht
      simpa [fieldTokens, fieldChars, entriesChars] using hlead
    | cons e' fs =>
      have hnext := resumes_fieldChars (h e' (by simp)).name c fs (newLine n ++ tail)
      have hlead :=
        hvalue.leads c c _ e.1 _ (.value :: .scalar e.1.toList true :: .key :: T') outer' hc
        hname (Nat.le_refl c) hcolumn hnext
      have hopen :
        Opens c (e.2.tokens.reverse ++ .value :: .scalar e.1.toList true :: .key :: T') c outer'
          (e.2.tokens.reverse ++ .value :: .scalar e.1.toList true :: .key :: T') outer' :=
        .other rfl
      have hrest := ih (fun e he => h e (List.mem_cons_of_mem _ he)) (by simp) hopen
      rw [fieldTokens_cons]
      simpa using hlead.trans hrest

theorem valueChars_object {k : String} (hk : IsFieldName k.toList) (hne : fs ≠ []) (indent : Nat) :
    valueChars indent (.text k) (object fs).written
      = newLine (indent + 2) ++ fieldChars (indent + 2) fs := by
  obtain ⟨e, fs, rfl⟩ := List.exists_cons_of_ne_nil hne
  have hsimple := isSimpleKey_field hk
  show (if isSimpleKey (.text k) then newLine (indent + 2) else [' '])
    ++ fieldChars (indent + 2) (e :: fs) = _
  rw [hsimple, if_pos rfl]

/-- The entries of an object lead to its tokens, and its end is found where the next line
begins. -/
theorem leads_object (h : ∀ e ∈ fs, FieldScans bound e) (hne : fs ≠ []) (hc : c + 2 ≤ bound)
    (hn : n ≤ c) (ht : Resumes tail) :
    Leads ⟨fieldChars (c + 2) fs ++ (newLine n ++ tail), c + 2, T, c, outer, true⟩
      ⟨tail, n, (object fs).tokens.reverse ++ T, c, outer, true⟩ := by
  have hopen : Opens (c + 2) T c outer (.blockMappingStart :: T) (c :: outer) := .first (by omega)
  have hfields := leads_fieldChars h hne hc (by omega : n ≤ c + 2) ht hopen
  have hclose :
    Leads ⟨tail, n, (fieldTokens fs).reverse ++ .blockMappingStart :: T, ((c + 2 : Nat) : Int),
        c :: outer, true⟩
      ⟨tail, n, .blockEnd :: ((fieldTokens fs).reverse ++ .blockMappingStart :: T), c, outer,
      true⟩ :=
    Spot.leads_close ht.toBeginsToken (by omega)
  have htokens : (object fs).tokens.reverse ++ T
      = .blockEnd :: ((fieldTokens fs).reverse ++ .blockMappingStart :: T) := by
    simp [object]
  rw [htokens]
  exact hfields.trans hclose

/-- **An object** begins on the line after its key and is indented. -/
theorem scans_object (h : ∀ e ∈ fs, FieldScans (bound + 2) e) (hne : fs ≠ []) :
    (object fs).Scans bound := by
  refine ⟨fun indent k after hk => ?_, fun indent k hk => ?_, ?_⟩
  · rw [valueChars_object hk hne]
    rfl
  · rw [valueChars_object hk hne]
    exact isPrintable_append.mpr ⟨isPrintable_newLine _, isPrintable_fieldChars h _⟩
  · intro indent n column k tail T outer hb hk hn _ ht
    obtain ⟨e, fs, rfl⟩ := List.exists_cons_of_ne_nil hne
    have hbegins := (resumes_fieldChars (h e List.mem_cons_self).name (indent + 2) fs
      (newLine n ++ tail)).toBeginsToken
    rw [valueChars_object hk hne, List.append_assoc]
    exact (Spot.leads_newLine hbegins).trans (leads_object h hne (by omega) hn ht)

/-! ## Lists of objects -/

variable {rs : List (List Field)}

/-- The rows of a list, each of which has fields that are scanned, and at least one. -/
def RowsScan (bound : Nat) (rs : List (List Field)) : Prop :=
  ∀ fs ∈ rs, (∀ e ∈ fs, FieldScans bound e) ∧ fs ≠ []

/-- The items that are written for objects. -/
def rowChars (indent : Nat) (rs : List (List Field)) : List Char :=
  itemsChars indent (rs.map fun fs => (object fs).written)

theorem rowChars_cons (hne : fs ≠ []) (indent : Nat) (rs : List (List Field)) :
    rowChars indent (fs :: rs) = '-' :: ' ' :: fieldChars (indent + 2) fs
      ++ (if rs.isEmpty then [] else newLine indent) ++ rowChars indent rs := by
  obtain ⟨e, fs, rfl⟩ := List.exists_cons_of_ne_nil hne
  rw [rowChars, List.map_cons, itemsChars, List.isEmpty_map]
  rfl

theorem isPrintable_rowChars (h : RowsScan bound rs) (indent : Nat) :
    IsPrintable (rowChars indent rs) := by
  induction rs with
  | nil => exact isPrintable_nil
  | cons fs rs ih =>
    obtain ⟨hfields, hne⟩ := h fs List.mem_cons_self
    have hdash : IsPrintable ('-' :: ' ' :: fieldChars (indent + 2) fs) :=
      isPrintable_cons.mpr
        ⟨Or.inr rfl, isPrintable_cons.mpr ⟨Or.inr rfl, isPrintable_fieldChars hfields _⟩⟩
    have hline : IsPrintable (if rs.isEmpty then [] else newLine indent) := by
      split
      · exact isPrintable_nil
      · exact isPrintable_newLine indent
    rw [rowChars_cons hne]
    exact isPrintable_append.mpr ⟨isPrintable_append.mpr ⟨hdash, hline⟩,
      ih fun fs hfs => h fs (List.mem_cons_of_mem _ hfs)⟩

theorem resumes_rowChars (hne : fs ≠ []) (indent : Nat) (rs : List (List Field))
    (after : List Char) :
    Resumes (rowChars indent (fs :: rs) ++ after) := by
  rw [rowChars_cons hne]
  exact ⟨beginsToken_of_isOrdinary (by decide) (by decide) (by decide) _, by simp [atMarker]⟩

/-- **Items are scanned one after another.** -/
theorem leads_rowChars (h : RowsScan bound rs) (hne : rs ≠ []) (hc : c + 2 ≤ bound) (hn : n ≤ c)
    (ht : Resumes tail) :
    Leads ⟨rowChars c rs ++ (newLine n ++ tail), c, T, c, outer, true⟩
      ⟨tail, n, (rowTokens rs).reverse ++ T, c, outer, true⟩ := by
  induction rs generalizing T with
  | nil => exact absurd rfl hne
  | cons fs rs ih =>
    obtain ⟨hfields, hfs⟩ := h fs List.mem_cons_self
    have hitem : ∀ (n : Nat) (tail : List Char), n ≤ c → Resumes tail →
        Leads ⟨'-' :: ' ' :: (fieldChars (c + 2) fs ++ (newLine n ++ tail)), c, T, c, outer, true⟩
          ⟨tail, n, (object fs).tokens.reverse ++ .blockEntry :: T, c, outer, true⟩ := by
      intro n tail hn ht
      obtain ⟨e, fs, rfl⟩ := List.exists_cons_of_ne_nil hfs
      have hbegins := (resumes_fieldChars (hfields e List.mem_cons_self).name (c + 2) fs
        (newLine n ++ tail)).toBeginsToken
      exact ((leads_dash _).trans (Spot.leads_space hbegins)).trans
        (leads_object hfields hfs hc hn ht)
    rw [rowChars_cons hfs, rowTokens_cons]
    -- each item but the last one is followed by the dash of the next one in the same column
    cases rs with
    | nil => simpa [rowChars, itemsChars, rowTokens] using hitem n tail hn ht
    | cons fs' rs =>
      have hfs' := (h fs' (by simp)).2
      have hlead := hitem c _ (Nat.le_refl c) (resumes_rowChars hfs' c rs (newLine n ++ tail))
      have hrest := ih (fun fs hfs => h fs (List.mem_cons_of_mem _ hfs)) (by simp)
        (T := (object fs).tokens.reverse ++ .blockEntry :: T)
      simpa using hlead.trans hrest

theorem valueChars_rows {k : String} (hk : IsFieldName k.toList) (hne : rs ≠ []) (indent : Nat) :
    valueChars indent (.text k) (rows rs).written = newLine indent ++ rowChars indent rs := by
  obtain ⟨fs, rs, rfl⟩ := List.exists_cons_of_ne_nil hne
  have hsimple := isSimpleKey_field hk
  show (if isSimpleKey (.text k) then newLine indent ++ rowChars indent (fs :: rs) else _) = _
  rw [hsimple, if_pos rfl]

/-- **A list of objects** begins on the line after its key and is not indented. -/
theorem scans_rows (h : RowsScan (bound + 2) rs) (hne : rs ≠ []) : (rows rs).Scans bound := by
  refine ⟨fun indent k after hk => ?_, fun indent k hk => ?_, ?_⟩
  · rw [valueChars_rows hk hne]
    rfl
  · rw [valueChars_rows hk hne]
    exact isPrintable_append.mpr ⟨isPrintable_newLine _, isPrintable_rowChars h _⟩
  · intro indent n column k tail T outer hb hk hn _ ht
    obtain ⟨fs, rs, rfl⟩ := List.exists_cons_of_ne_nil hne
    have hbegins := (resumes_rowChars (h fs List.mem_cons_self).2 indent rs
      (newLine n ++ tail)).toBeginsToken
    rw [valueChars_rows hk hne, List.append_assoc]
    exact (Spot.leads_newLine hbegins).trans (leads_rowChars h hne (by omega) hn ht)

/-! ## Documents -/

/-- **An object as a document** is cut into its tokens. -/
theorem tokens_object (h : ∀ e ∈ fs, FieldScans bound e) (hne : fs ≠ []) :
    Yaml.tokens (documentChars (object fs).written) = .ok (object fs).tokens := by
  obtain ⟨e, fs, rfl⟩ := List.exists_cons_of_ne_nil hne
  have hchars : documentChars (object (e :: fs)).written
      = fieldChars 0 (e :: fs) ++ (newLine 0 ++ []) := rfl
  have hallowed : (documentChars (object (e :: fs)).written).all isAllowed = true := by
    rw [hchars]
    exact (isPrintable_append.mpr ⟨isPrintable_fieldChars h 0, isPrintable_newLine 0⟩).isAllowed
  have hend : Resumes [] := ⟨⟨by simp, by simp, rfl, by simp⟩, rfl⟩
  -- outside of all collections the indentation is one less than that of the first column
  have hopen : Opens 0 [] (-1) [] [.blockMappingStart] [-1] := .first (by decide)
  have hfields := leads_fieldChars h hne (Nat.zero_le bound) (Nat.le_refl 0) hend hopen
  have hfound := (hfields _ (finds_end _) 0 0).all (Nat.lt_succ_self _)
  rw [List.reverse_append, List.reverse_reverse] at hfound
  rw [Yaml.tokens, hallowed, if_pos rfl, hchars]
  exact hfound

end Part

end EnumDecl.Yaml
