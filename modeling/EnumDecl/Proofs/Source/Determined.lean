import EnumDecl.Proofs.Source.Lines
import EnumDecl.Proofs.Source.Reading
import EnumDecl.Proofs.Source.Relayout
import EnumDecl.Proofs.Source.WellFormed

/-!
# The source text determines the enumeration

Two enumerations with one source text are declared in the same way
(`sameDeclaration_of_render_eq`), even if the text was laid out in two ways. The argument goes back
from the text step by step. Its lines without white space are those of the outlines, whatever the
layouts were; the lines determine the outline; and a name, a number or an argument that is spelled
in one way is one. The first two steps ask of what is spelled that it keeps to its line and its
place on it, and it does (`isTidy_of_unbroken`, `isNamed_outline`).
-/

namespace EnumDecl.Source

open Enumeration Identifier

/-! ## What can be read -/

/-- A namespace: none, or identifiers with points between them. -/
def IsContainer (v : Value) : Prop :=
  ∃ s, v.bare = .text s ∧ (s = "" ∨ ∀ p ∈ Text.pieces '.' s.toList, isIdentifierChars p = true)

/-- An enumeration whose values are integers and whose annotations refer to namespaces, types and
constants that are named by identifiers. -/
structure Legible (e : Enumeration) : Prop where
  numbered : Numbered e
  container : IsContainer e.container
  types : ∀ a ∈ allAnnotations e, IsIdentifier a.type.name
  imported : ∀ a ∈ allAnnotations e, IsContainer a.type.container
  constants : ∀ a ∈ allAnnotations e, NamesConstant a.argument

theorem mem_pieces (sep : Char) {c : Char} {cs : List Char} (h : c ∈ cs) :
    c = sep ∨ ∃ p ∈ Text.pieces sep cs, c ∈ p := by
  induction cs with
  | nil => exact absurd h (by simp)
  | cons d ds ih =>
    unfold Text.pieces
    split
    · rename_i hd
      rcases List.mem_cons.mp h with rfl | h
      · exact Or.inl hd
      · refine (ih h).imp_right ?_
        rintro ⟨p, hp, hc⟩
        exact ⟨p, List.mem_cons_of_mem _ hp, hc⟩
    · cases hpieces : Text.pieces sep ds with
      | nil => exact absurd hpieces (Text.pieces_ne_nil sep ds)
      | cons q qs =>
        rw [hpieces] at ih
        rcases List.mem_cons.mp h with rfl | h
        · exact Or.inr ⟨_, List.mem_cons_self, List.mem_cons_self⟩
        · refine (ih h).imp_right ?_
          rintro ⟨p, hp, hc⟩
          rcases List.mem_cons.mp hp with rfl | hp
          · exact ⟨_, List.mem_cons_self, List.mem_cons_of_mem _ hc⟩
          · exact ⟨p, List.mem_cons_of_mem _ hp, hc⟩

theorem IsContainer.unbroken {v : Value} (h : IsContainer v) : v.Unbroken := by
  obtain ⟨s, hs, hparts⟩ := h
  intro t ht hmem
  rw [hs] at ht
  obtain rfl : s = t := Value.text.inj ht
  rcases hparts with rfl | hparts
  · exact absurd hmem (by decide)
  · rcases mem_pieces '.' hmem with he | ⟨p, hp, hc⟩
    · exact absurd he (by decide)
    · exact not_mem_identifier (hparts p hp) (by decide) hc

theorem IsIdentifier.unbroken {v : Value} (h : IsIdentifier v) : v.Unbroken := fun _ hs =>
  not_mem_identifier (h.isIdentifierChars hs) (by decide)

theorem NamesConstant.unbroken {a : Argument} (h : NamesConstant a) (n o : Value)
    (ha : a = .constant n o) : n.Unbroken ∧ o.Unbroken := by
  obtain ⟨hn, ho⟩ := h n o ha
  refine ⟨hn.unbroken, fun s hs => ?_⟩
  rcases ho with ho | ho | ho
  · exact absurd (ho.symm.trans hs) (by simp)
  · obtain rfl : "" = s := Value.text.inj (ho.symm.trans hs)
    decide
  · exact ho.unbroken s hs

theorem Legible.unbroken {e : Enumeration} (h : Legible e) : Unbroken e where
  container := h.container.unbroken
  types := fun a ha => (h.types a ha).unbroken
  imported := fun a ha => (h.imported a ha).unbroken
  constants := fun a ha => (h.constants a ha).unbroken
  values := by
    intro m hm hgiven s hs
    obtain ⟨i, hi⟩ := h.numbered m hm hgiven
    exact absurd (hi.symm.trans hs) (by simp)

/-- What is spelled for such an enumeration is named. -/
theorem isNamed_outline {e : Enumeration} (hs : Sound e) (h : Legible e) {o : Outline}
    (ho : Outlines e o) : ∀ m ∈ o.members, m.IsNamed := by
  intro p hp
  obtain ⟨m, hm, hmp⟩ := exists_of_forall₂ ho.members hp
  have hmp := memberOutline_eq_ok_iff.mp hmp
  constructor
  · rw [hmp.name]
    exact isNameToken_nameText (hs.isIdentifierChars_member hm)
  · intro b hb
    obtain ⟨a, ha, hab⟩ := exists_of_forall₂ hmp.annotations hb
    obtain ⟨s, hs, ht⟩ := nameOf_eq_ok_iff.mp (annotationOutline_eq_ok_iff.mp hab).2
    have hall : a ∈ allAnnotations e := List.mem_flatMap.mpr ⟨m, hm, ha⟩
    rw [← ht]
    exact isNameToken_nameText ((h.types a hall).isIdentifierChars hs)

/-! ## The same declaration -/

/-- Arguments that say the same: equal literals apart from marks, or constants with one name and
one owner; an owner that counts as nothing is none. -/
def SameArgument : Argument → Argument → Prop
  | .literal v, .literal w => v.bare = w.bare
  | .constant n o, .constant p q =>
    n.bare = p.bare ∧ ((o.isTrue = false ∧ q.isTrue = false) ∨ o.bare = q.bare)
  | _, _ => False

/-- Annotations with one type name and the same argument. -/
def SameAnnotation (a b : Annotation) : Prop :=
  a.type.name.bare = b.type.name.bare ∧ SameArgument a.argument b.argument

/-- Members with one name, the same number if any, and the same annotations. -/
structure SameMember (noValue other : Value) (m n : Member) : Prop where
  name : m.name = n.name
  /-- Both have a number, or none has. -/
  presence : m.value.eqv noValue = n.value.eqv other
  number : m.value.eqv noValue = false → m.value.bare = n.value.bare
  annotations : List.Forall₂ SameAnnotation m.annotations n.annotations

/-- Enumerations with the same name, namespace, imports and members. -/
structure SameDeclaration (e f : Enumeration) : Prop where
  name : e.name = f.name
  container : e.container.bare = f.container.bare
  imports : (imports e).map Value.bare = (imports f).map Value.bare
  members : List.Forall₂ (SameMember e.noValue f.noValue) e.members f.members

theorem sameArgument_of_says {a b : Argument} {r : Reading} (ha : Says a r) (hb : Says b r) :
    SameArgument a b := by
  -- a reading of one kind is none of another
  cases ha with
  | literal v =>
    generalize hr : Reading.literal v.bare = r at hb
    cases hb with
    | literal w => exact Reading.literal.inj hr
    | constant _ _ => exact absurd hr (by simp)
    | owned _ _ _ => exact absurd hr (by simp)
  | @constant n o s hn ho =>
    generalize hr : Reading.constant s.toList = r at hb
    cases hb with
    | literal w => exact absurd hr (by simp)
    | @constant p q s' hp hq =>
      rw [String.toList_inj.mp (Reading.constant.inj hr)] at hn
      exact ⟨hn.trans hp.symm, Or.inl ⟨ho, hq⟩⟩
    | owned _ _ _ => exact absurd hr (by simp)
  | @owned n o s p hn ho _ =>
    generalize hr : Reading.owned p.toList s.toList = r at hb
    cases hb with
    | literal w => exact absurd hr (by simp)
    | constant _ _ => exact absurd hr (by simp)
    | @owned n' o' s' p' hn' ho' _ =>
      obtain ⟨howner, hname⟩ := Reading.owned.inj hr
      rw [String.toList_inj.mp hname] at hn
      rw [String.toList_inj.mp howner] at ho
      exact ⟨hn.trans hn'.symm, Or.inr (ho.trans ho'.symm)⟩

theorem sameAnnotation {a b : Annotation} {c : AnnotationOutline}
    (ha : annotationOutline a = .ok c)
    (hb : annotationOutline b = .ok c) (hat : IsIdentifier a.type.name)
    (hbt : IsIdentifier b.type.name)
    (hac : NamesConstant a.argument) (hbc : NamesConstant b.argument) : SameAnnotation a b := by
  obtain ⟨haa, hat'⟩ := annotationOutline_eq_ok_iff.mp ha
  obtain ⟨hba, hbt'⟩ := annotationOutline_eq_ok_iff.mp hb
  constructor
  · obtain ⟨s, hs, hst⟩ := nameOf_eq_ok_iff.mp hat'
    obtain ⟨t, ht, htt⟩ := nameOf_eq_ok_iff.mp hbt'
    rw [hs, ht, nameText_inj (hat.isIdentifierChars hs) (hbt.isIdentifierChars ht)
      (hst.trans htt.symm)]
  -- the text is the same, so it is read as one argument
  · obtain ⟨r, hr, hra⟩ := exists_readArgument? (argumentText_eq_ok_iff.mp haa) hac
    obtain ⟨r', hr', hrb⟩ := exists_readArgument? (argumentText_eq_ok_iff.mp hba) hbc
    obtain rfl : r = r' := Option.some.inj (hr.symm.trans hr')
    exact sameArgument_of_says hra hrb

/-- One number, or none, is one value, or none. -/
theorem sameNumber {noValue other : Value} {m n : Member} {k : Option String}
    (hm : numberText noValue m = .ok k) (hn : numberText other n = .ok k)
    (hmi : m.value.eqv noValue = false → ∃ i, m.value.bare = .int i)
    (hni : n.value.eqv other = false → ∃ i, n.value.bare = .int i) :
    m.value.eqv noValue = n.value.eqv other ∧
      (m.value.eqv noValue = false → m.value.bare = n.value.bare) := by
  cases k with
  | none =>
    have hme := numberText_eq_none_iff.mp hm
    rw [hme, numberText_eq_none_iff.mp hn]
    exact ⟨rfl, fun h => absurd h (by simp)⟩
  | some t =>
    obtain ⟨hme, i, hi, hti⟩ := int_of_numberText hm hmi
    obtain ⟨hne, j, hj, htj⟩ := int_of_numberText hn hni
    rw [hme, hne, hi, hj, Decimal.ofInt_inj (hti.symm.trans htj)]
    exact ⟨rfl, fun _ => rfl⟩

/-- A namespace is what is written for it. -/
theorem bare_of_plainText {v : Value} (h : IsContainer v) {t : String} (ht : plainText v = .ok t) :
    v.bare = .text t := by
  obtain ⟨s, hs, -⟩ := h
  rw [plainText_eq_ok ht, plain_of_bare_text hs, hs]

theorem bare_of_containerText {e : Enumeration} (h : IsContainer e.container) {c : Option String}
    (hc : containerText e = .ok c) : e.container.bare = .text (c.getD "") := by
  cases c with
  | some t => exact bare_of_plainText h (containerText_eq_some_iff.mp hc).2
  | none =>
    obtain ⟨s, hs, -⟩ := h
    have hfalse := containerText_eq_none_iff.mp hc
    rw [← Value.isTrue_bare, hs] at hfalse
    have hempty : s = "" := by simpa [Value.isTrue] using hfalse
    rw [hs, hempty]
    rfl

theorem bare_imports {e : Enumeration} (h : Legible e) {o : Outline} (ho : Outlines e o) :
    (imports e).map Value.bare = o.imports.map .text := by
  refine map_eq_map_of_forall₂ (forall₂_imp_of_mem ho.imports fun v hv t _ ht => ?_)
  rcases mem_importsAfter hv with hv | ⟨a, ha, rfl⟩
  · exact absurd hv (by simp)
  · exact bare_of_plainText (h.imported a ha) ht

/-- Enumerations with one outline are the same declaration. -/
theorem sameDeclaration_of_outlines {e f : Enumeration} (he : Sound e) (hf : Sound f)
    (hle : Legible e)
    (hlf : Legible f) {o : Outline} (ho : Outlines e o) (hp : Outlines f o) :
    SameDeclaration e f := by
  refine ⟨?_, ?_, (bare_imports hle ho).trans (bare_imports hlf hp).symm, ?_⟩
  · exact nameText_inj he.isIdentifierChars_name hf.isIdentifierChars_name
      (ho.name.symm.trans hp.name)
  · rw [bare_of_containerText hle.container ho.container,
      bare_of_containerText hlf.container hp.container]
  · refine forall₂_imp_of_mem (forall₂_of_common ho.members hp.members) fun m hm n hn hmn => ?_
    obtain ⟨p, hmp, hnp⟩ := hmn
    have hmp := memberOutline_eq_ok_iff.mp hmp
    have hnp := memberOutline_eq_ok_iff.mp hnp
    obtain ⟨hpresence, hnumber⟩ := sameNumber hmp.number hnp.number (hle.numbered m hm)
      (hlf.numbered n hn)
    refine ⟨?_, hpresence, hnumber, ?_⟩
    · exact nameText_inj (he.isIdentifierChars_member hm) (hf.isIdentifierChars_member hn)
        (hmp.name.symm.trans hnp.name)
    · refine forall₂_imp_of_mem (forall₂_of_common hmp.annotations hnp.annotations)
        fun a ha b hb hab => ?_
      obtain ⟨c, hac, hbc⟩ := hab
      have hae : a ∈ allAnnotations e := List.mem_flatMap.mpr ⟨m, hm, ha⟩
      have hbf : b ∈ allAnnotations f := List.mem_flatMap.mpr ⟨n, hn, hb⟩
      exact sameAnnotation hac hbc (hle.types a hae) (hlf.types b hbf) (hle.constants a hae)
        (hlf.constants b hbf)

/--
**The source text determines the enumeration.** If two enumerations, laid out in any two ways, have
one source text, then they have the same name, namespace and imports, and member by member the same
names, numbers and annotations. In particular a literal is never written as a constant is.
-/
theorem sameDeclaration_of_render_eq {e f : Enumeration} (he : Reachable e) (hf : Reachable f)
    (hle : Legible e) (hlf : Legible f) {l k : Layout} (hl : l.IsBlank) (hk : k.IsBlank)
    {text : String} (hr : render e l = .ok text) (hs : render f k = .ok text) :
    SameDeclaration e f := by
  obtain ⟨o, ho, hot⟩ := render_eq_ok_iff.mp hr
  obtain ⟨p, hp, hpt⟩ := render_eq_ok_iff.mp hs
  have ho := outline_eq_ok_iff.mp ho
  have hp := outline_eq_ok_iff.mp hp
  have hse := sound_reachable he
  have hsf := sound_reachable hf
  have hotidy := isTidy_of_unbroken hse hle.unbroken ho
  have hptidy := isTidy_of_unbroken hsf hlf.unbroken hp
  -- what is left without white space is the same, and so are the outlines
  have hlines : o.plainLines.map String.toList = p.plainLines.map String.toList := by
    rw [← normalLines_text hotidy hl, ← normalLines_text hptidy hk, hot, hpt]
  obtain rfl : o = p := plainLines_inj (isNamed_outline hse hle ho) (isNamed_outline hsf hlf hp)
    (map_inj_of_mem (fun _ _ _ _ => String.toList_inj.mp) hlines)
  exact sameDeclaration_of_outlines hse hsf hle hlf ho hp

/-- An enumeration with a constant, a literal and a text that are spelled alike but for a sign or
quotes. -/
def lookalike (owner : Value) : Enumeration :=
  ((Enumeration.mk "Marks" (.text "Zoo") (.int (-1)) (.bool false) .null [] [] []).run
    [⟨.text "Red", .int 1,
    .many [⟨⟨.text "Kind", .text "Zoo.Kinds"⟩, .constant (.text "true") owner⟩,
      ⟨⟨.text "Kind", .text ""⟩, .literal (.bool true)⟩,
      ⟨⟨.text "Kind", .text "Zoo.Kinds"⟩, .literal (.text "@true")⟩]⟩]).enumeration

theorem legible_lookalike {owner : Value} (h : owner.bare = .null ∨ owner.bare = .text "") :
    Legible (lookalike owner) := by
  have hannotations : allAnnotations (lookalike owner)
      = [⟨⟨.text "Kind", .text "Zoo.Kinds"⟩, .constant (.text "true") owner⟩,
        ⟨⟨.text "Kind", .text ""⟩, .literal (.bool true)⟩,
        ⟨⟨.text "Kind", .text "Zoo.Kinds"⟩, .literal (.text "@true")⟩] := by cbv
  have hvalues : (lookalike owner).members.map (·.value) = [.int 1] := by cbv
  have hcontainer : (lookalike owner).container = .text "Zoo" := by cbv
  have hidentifier : IsIdentifier (.text "Kind") := ⟨_, rfl, by decide⟩
  have hkinds : IsContainer (.text "Zoo.Kinds") := ⟨_, rfl, Or.inr (by decide)⟩
  have hnone : IsContainer (.text "") := ⟨_, rfl, Or.inl rfl⟩
  refine ⟨fun m hm _ => ?_, ?_, ?_, ?_, ?_⟩
  · have hv : m.value ∈ (lookalike owner).members.map (·.value) := List.mem_map_of_mem hm
    rw [hvalues] at hv
    exact ⟨1, by rw [List.mem_singleton.mp hv]; rfl⟩
  · rw [hcontainer]
    exact ⟨_, rfl, Or.inr (by decide)⟩
  · rw [hannotations]
    simp [hidentifier]
  · rw [hannotations]
    simp [hkinds, hnone]
  · have htrue : IsIdentifier (.text "true") := ⟨_, rfl, by decide⟩
    rw [hannotations]
    simp only [List.forall_mem_cons, NamesConstant]
    refine ⟨?_, by rintro n o ⟨⟩, by rintro n o ⟨⟩, by simp⟩
    rintro n o ⟨⟩
    exact ⟨htrue, h.imp_right Or.inl⟩

/-- What is written for it. -/
def lookalikeText : String :=
  "namespace Zoo\n\x7b\n\tusing Zoo.Kinds;\n\n\tpublic enum Marks\n\t\x7b\n" ++
  "\t\t[Kind(@true)]\n\t\t[Kind(true)]\n\t\t[Kind(\x22@true\x22)]\n\t\tRed = 1,\n\t\x7d\n\x7d\n"

/-- No owner and an empty one are written alike, and so is a single member with or without gaps. -/
theorem sameDeclaration_of_render_eq_lookalike :
    Legible (lookalike .null) ∧ Legible (lookalike (.text "")) ∧
    render (lookalike .null) ⟨.ownLine, true, "\t"⟩ = .ok lookalikeText ∧
    render (lookalike (.text "")) ⟨.ownLine, false, "\t"⟩ = .ok lookalikeText ∧
    SameDeclaration (lookalike .null) (lookalike (.text "")) := by
  have hd : declare ⟨.text "Marks", .text "Zoo", .bool false, .int (-1), .null⟩
      = .ok ⟨"Marks", .text "Zoo", .int (-1), .bool false, .null, [], [], []⟩ := by cbv
  have hnull : Legible (lookalike .null) := legible_lookalike (Or.inl rfl)
  have hempty : Legible (lookalike (.text "")) := legible_lookalike (Or.inr rfl)
  have hr : render (lookalike .null) ⟨.ownLine, true, "\t"⟩ = .ok lookalikeText :=
    eq_ok_of_toOption (by decide +kernel)
  have hs : render (lookalike (.text "")) ⟨.ownLine, false, "\t"⟩ = .ok lookalikeText :=
    eq_ok_of_toOption (by decide +kernel)
  have htab : "\t".toList.all isIndent = true := by decide
  have hl : ∀ blankLines, Layout.IsBlank ⟨.ownLine, blankLines, "\t"⟩ :=
    fun _ => isBlank_of_all htab
  exact ⟨hnull, hempty, hr, hs, sameDeclaration_of_render_eq (reachable_run (.declared hd) _)
    (reachable_run (.declared hd) _) hnull hempty (hl true) (hl false) hr hs⟩

end EnumDecl.Source
