import EnumDecl.Proofs.Invariant
import EnumDecl.Proofs.Source.Outline
import EnumDecl.Proofs.Source.Spelling

/-!
# What is written is an enumeration

Whoever compiles a source text asks three things of it: that names are names and no reserved words,
that no name is declared twice, and that no number is given twice. An enumeration knows nothing of
reserved words, and it counts a member as one without a number by a rule of its own. The two go
together (`wellFormed_render`): a name is only ever changed by a sign that does not count, and a
number is left out for just the members that the rule for values exempts.
-/

namespace EnumDecl.Source

open Enumeration Identifier

/-- All members that were given a value were given an integer. -/
def Numbered (e : Enumeration) : Prop :=
  ∀ m ∈ e.members, e.isNoValue m.value = false → ∃ i, m.value.bare = .int i

/-- A spelling of a value, which is a name that stands for it if it is an identifier. -/
def Names (cs : List Char) (v : Value) : Prop :=
  ∀ s, v.bare = .text s → isIdentifierChars s.toList = true →
    isNameToken cs = true ∧ nameOfToken cs = s.toList

/-- What an annotation refers to is written with names. -/
structure WellFormedAnnotation (a : Annotation) (b : AnnotationOutline) : Prop where
  type : Names b.type.toList a.type.name
  /-- A constant without an owner is one name. -/
  constant : ∀ n o, a.argument = .constant n o → o.isTrue = false → Names b.argument.toList n
  /-- A constant with an owner is two. -/
  owned : ∀ n o, a.argument = .constant n o → o.isTrue = true →
    ∃ cs ds, b.argument.toList = cs ++ '.' :: ds ∧ Names cs o ∧ Names ds n

/-- A member is written with a name, and without a number if its value means that there is none. -/
structure WellFormedMember (noValue : Value) (m : Member) (p : MemberOutline) : Prop where
  name : isNameToken p.name.toList = true ∧ nameOfToken p.name.toList = m.name.toList
  number : p.number = none ↔ m.value.eqv noValue = true
  annotations : List.Forall₂ WellFormedAnnotation m.annotations p.annotations

/-- What is written for an enumeration, name by name and number by number. -/
structure WellFormed (e : Enumeration) (o : Outline) : Prop where
  name : isNameToken o.name.toList = true ∧ nameOfToken o.name.toList = e.name.toList
  members : List.Forall₂ (WellFormedMember e.noValue) e.members o.members
  /-- No two names are one, with or without a sign in front. -/
  names_nodup : (o.members.map fun p => nameOfToken p.name.toList).Nodup
  /-- All numbers are decimal integers. -/
  numbers : ∀ n ∈ o.members.filterMap (·.number), ∃ i, n = Decimal.ofInt i
  /-- No number is given twice. -/
  numbers_nodup : (o.members.filterMap (·.number)).Nodup

/-! ## Names -/

theorem names_nameText {v : Value} {s : String} (h : v.bare = .text s) :
    Names (nameText s).toList v := by
  intro t ht hident
  rw [h] at ht
  cases ht
  exact ⟨isNameToken_nameText hident, nameOfToken_nameText hident⟩

theorem wellFormedAnnotation {a : Annotation} {b : AnnotationOutline}
    (h : annotationOutline a = .ok b) : WellFormedAnnotation a b := by
  obtain ⟨hargument, htype⟩ := annotationOutline_eq_ok_iff.mp h
  have hargument := argumentText_eq_ok_iff.mp hargument
  refine ⟨?_, fun n o ha ho => ?_, fun n o ha ho => ?_⟩
  · obtain ⟨s, hs, ht⟩ := nameOf_eq_ok_iff.mp htype
    rw [← ht]
    exact names_nameText hs
  · rw [ha] at hargument
    generalize b.argument = t at hargument
    cases hargument with
    | constant hn _ => exact names_nameText hn
    | owned _ howner hp =>
      rw [← Value.isTrue_bare, howner] at ho
      exact absurd ho (by simpa [Value.isTrue] using hp)
  · rw [ha] at hargument
    generalize b.argument = t at hargument
    cases hargument with
    | constant _ hfalse => exact absurd ho (by simp [hfalse])
    | @owned _ _ s p hn howner _ =>
      exact ⟨(nameText p).toList, (nameText s).toList, by simp, names_nameText howner,
        names_nameText hn⟩

theorem wellFormedMember {noValue : Value} {m : Member} {p : MemberOutline}
    (hname : isIdentifierChars m.name.toList = true) (h : OutlinesMember noValue m p) :
    WellFormedMember noValue m p := by
  refine ⟨?_, ?_, h.annotations.imp fun _ _ => wellFormedAnnotation⟩
  · rw [h.name]
    exact ⟨isNameToken_nameText hname, nameOfToken_nameText hname⟩
  · rw [← numberText_eq_none_iff, h.number]
    exact ⟨congrArg Except.ok, Except.ok.inj⟩

/-! ## Numbers -/

/-- Equal integers are equal values. -/
theorem eqv_of_bare_int {v w : Value} {i : Int} (hv : v.bare = .int i) (hw : w.bare = .int i) :
    v.eqv w = true := by
  have hlike : Value.isLike v w = true := by
    rw [← Value.isLike_bare_left, ← Value.isLike_bare_right, hv, hw]
    simp [Value.isLike, Value.bare, Value.eqvAtom]
  rw [Value.eqv, hlike, Bool.or_true]

/-- The number that is written for a value that was given is the value's. -/
theorem int_of_numberText {noValue : Value} {m : Member} {n : String}
    (h : numberText noValue m = .ok (some n))
    (hm : m.value.eqv noValue = false → ∃ i, m.value.bare = .int i) :
    m.value.eqv noValue = false ∧ ∃ i, m.value.bare = .int i ∧ n = Decimal.ofInt i := by
  obtain ⟨hexplicit, hn⟩ := numberText_eq_some_iff.mp h
  obtain ⟨i, hi⟩ := hm hexplicit
  exact ⟨hexplicit, i, hi, by rw [plainText_eq_ok hn, plain_of_bare_int hi]⟩

/-- Where a number is written there is a member that was given it. -/
theorem exists_of_mem_numbers {noValue : Value} {ms : List Member} {ps : List MemberOutline}
    (h : List.Forall₂ (OutlinesMember noValue) ms ps)
    (hn : ∀ m ∈ ms, m.value.eqv noValue = false → ∃ i, m.value.bare = .int i) {n : String}
    (hmem : n ∈ ps.filterMap (·.number)) :
    ∃ m ∈ ms, ∃ i, m.value.eqv noValue = false ∧ m.value.bare = .int i ∧ n = Decimal.ofInt i := by
  induction h with
  | nil => exact absurd hmem (by simp)
  | @cons m p ms ps hp _ ih =>
    have hrest : n ∈ ps.filterMap (·.number) → ∃ m' ∈ m :: ms, ∃ i, m'.value.eqv noValue = false ∧
        m'.value.bare = .int i ∧ n = Decimal.ofInt i := by
      intro hps
      obtain ⟨m', hm', hi⟩ := ih (fun x hx => hn x (List.mem_cons_of_mem _ hx)) hps
      exact ⟨m', List.mem_cons_of_mem _ hm', hi⟩
    have hnumber := hp.number
    rw [List.filterMap_cons] at hmem
    cases hk : p.number with
    | none =>
      rw [hk] at hmem
      exact hrest hmem
    | some k =>
      rw [hk] at hmem hnumber
      rcases List.mem_cons.mp hmem with rfl | hmem
      · obtain ⟨hexplicit, i, hi, he⟩ := int_of_numberText hnumber (hn m List.mem_cons_self)
        exact ⟨m, List.mem_cons_self, i, hexplicit, hi, he⟩
      · exact hrest hmem

/-- Numbers of members with unequal values are different texts. -/
theorem nodup_numbers {noValue : Value} {ms : List Member} {ps : List MemberOutline}
    (h : List.Forall₂ (OutlinesMember noValue) ms ps)
    (hn : ∀ m ∈ ms, m.value.eqv noValue = false → ∃ i, m.value.bare = .int i)
    (hne : ms.Pairwise fun m n => m.value.eqv noValue = false → n.value.eqv noValue = false →
      m.value.eqv n.value = false) : (ps.filterMap (·.number)).Nodup := by
  induction h with
  | nil => exact .nil
  | @cons m p ms ps hp hps ih =>
    obtain ⟨hm, hne⟩ := List.pairwise_cons.mp hne
    have hn' : ∀ x ∈ ms, x.value.eqv noValue = false → ∃ i, x.value.bare = .int i :=
      fun x hx => hn x (List.mem_cons_of_mem _ hx)
    have hrest := ih hn' hne
    have hnumber := hp.number
    rw [List.filterMap_cons]
    cases hk : p.number with
    | none => exact hrest
    | some k =>
      refine List.nodup_cons.mpr ⟨fun hmem => ?_, hrest⟩
      -- the same text a second time would be the same value a second time
      rw [hk] at hnumber
      obtain ⟨hexplicit, i, hi, hki⟩ := int_of_numberText hnumber (hn m List.mem_cons_self)
      obtain ⟨m', hm', j, hexplicit', hj, hkj⟩ := exists_of_mem_numbers hps hn' hmem
      rw [← Decimal.ofInt_inj (hki.symm.trans hkj)] at hj
      have hunequal := hm m' hm' hexplicit hexplicit'
      rw [eqv_of_bare_int hi hj] at hunequal
      exact absurd hunequal (by simp)

/-! ## The whole -/

theorem wellFormed_outline {e : Enumeration} (h : Sound e) (hn : Numbered e) {o : Outline}
    (ho : Outlines e o) : WellFormed e o := by
  have hmembers : List.Forall₂ (OutlinesMember e.noValue) e.members o.members :=
    ho.members.imp fun _ _ => memberOutline_eq_ok_iff.mp
  have hwell : List.Forall₂ (WellFormedMember e.noValue) e.members o.members :=
    forall₂_imp_of_mem hmembers fun m hm p _ hp =>
      wellFormedMember (h.isIdentifierChars_member hm) hp
  have hnames : (o.members.map fun p => nameOfToken p.name.toList)
    = e.memberNames.map String.toList := by
    rw [memberNames, List.map_map, eq_comm]
    exact map_eq_map_of_forall₂ (hwell.imp fun m p hp => hp.name.2.symm)
  refine ⟨?_, hwell, ?_, ?_, nodup_numbers hmembers hn ?_⟩
  · rw [ho.name]
    exact ⟨isNameToken_nameText h.isIdentifierChars_name,
      nameOfToken_nameText h.isIdentifierChars_name⟩
  · rw [hnames]
    exact (memberNames_nodup h).map fun _ _ => String.toList_inj.mp
  · intro n hmem
    obtain ⟨-, -, i, -, -, hi⟩ := exists_of_mem_numbers hmembers hn hmem
    exact ⟨i, hi⟩
  · have hkept : ∀ m ∈ e.members, m.value.eqv e.noValue = false → e.isKept m.value = true := by
      intro m hm hexplicit
      obtain ⟨i, hi⟩ := hn m hm hexplicit
      refine isKept_iff.mpr ⟨hexplicit, ?_⟩
      rw [← Value.isHashable_bare, hi]
      rfl
    exact (values_unequal h).imp_of_mem fun {m n} hm hn hmn hem hen =>
      (hmn (hkept m hm hem) (hkept n hn hen)).1

/--
**What is written is an enumeration.** Its type name and its members' names are names and no
reserved words, no two of them are one, a number is left out for just the members that have none,
and no number is given twice. The same is true of the names that annotations refer to, if they are
identifiers.
-/
theorem wellFormed_render {e : Enumeration} (h : Reachable e) (hn : Numbered e) {l : Layout}
    {text : String} (hr : render e l = .ok text) :
    ∃ o, outline e = .ok o ∧ o.text l = text ∧ WellFormed e o := by
  obtain ⟨o, ho, htext⟩ := render_eq_ok_iff.mp hr
  exact ⟨o, ho, htext, wellFormed_outline (sound_reachable h) hn (outline_eq_ok_iff.mp ho)⟩

/-- An enumeration named by a reserved word, in which zero means that there is no value. -/
def reserved : Enumeration := ⟨"enum", .text "", .int 0, .bool true, .null, [], [], []⟩

/-- Members named by reserved words, one of them twice, and with a value that counts as none. -/
def reservedRequests : List Request := [
  ⟨.text "class", .int 1,
  .one ⟨⟨.text "event", .text ""⟩, .constant (.text "true") (.text "bool")⟩⟩,
  ⟨.text "class", .int (-1), .none⟩, ⟨.text "int", .bool false, .none⟩, ⟨.text "1", .null, .none⟩]

/-- What is written for them. -/
def reservedText : String := "public enum @enum \x7b\n [@event(@bool.@true)]\n @class = 1,\n" ++
  " class_1 = -1,\n @int,\n _1,\n\x7d\n"

theorem wellFormed_render_reserved : Reachable (reserved.run reservedRequests).enumeration ∧
    Numbered (reserved.run reservedRequests).enumeration ∧
    render (reserved.run reservedRequests).enumeration ⟨.endOfLine, false, " "⟩
      = .ok reservedText ∧
    ∃ o, outline (reserved.run reservedRequests).enumeration = .ok o ∧
      o.text ⟨.endOfLine, false, " "⟩ = reservedText ∧
      WellFormed (reserved.run reservedRequests).enumeration o := by
  have hd : declare ⟨.text "enum", .text "", .bool true, .int 0, .null⟩ = .ok reserved := by cbv
  have h := reachable_run (.declared hd) reservedRequests
  have hr : render (reserved.run reservedRequests).enumeration ⟨.endOfLine, false, " "⟩
      = .ok reservedText := eq_ok_of_toOption (by decide +kernel)
  have hvalues : (reserved.run reservedRequests).enumeration.members.map (·.value)
      = [.int 1, .int (-1), .bool false, .int 0] := by cbv
  have hnone : (reserved.run reservedRequests).enumeration.noValue = .int 0 := by cbv
  have hn : Numbered (reserved.run reservedRequests).enumeration := by
    intro m hm hv
    have hmem : m.value ∈ (reserved.run reservedRequests).enumeration.members.map (·.value) :=
      List.mem_map_of_mem hm
    rw [hvalues] at hmem
    rw [isNoValue, hnone] at hv
    simp only [List.mem_cons, List.not_mem_nil, or_false] at hmem
    rcases hmem with he | he | he | he
    · exact ⟨1, by rw [he]; rfl⟩
    · exact ⟨-1, by rw [he]; rfl⟩
    · exact absurd (he ▸ hv) (by decide +kernel)
    · exact absurd (he ▸ hv) (by decide +kernel)
  exact ⟨h, hn, hr, wellFormed_render h hn hr⟩

end EnumDecl.Source
