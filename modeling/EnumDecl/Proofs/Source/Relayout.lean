import EnumDecl.Proofs.Invariant
import EnumDecl.Proofs.OneLine
import EnumDecl.Proofs.Source.Layout

/-!
# One enumeration in two layouts

What an enumeration is spelled as does not depend on the layout, and neither does the fault if it
cannot be spelled. Laid out in two ways it gives two texts that are one apart from white space
(`relaid_render`): imports, annotations and members are on the same lines in the same order,
whatever stands around them.

All that is asked of the enumeration is that no text in it brings a line feed of its own to a place
where it is written as it is. In a string literal it does no harm, because there it is an escape.
-/

namespace EnumDecl.Source

open Enumeration Identifier Text

/-- No namespace, name or value that is written as it is holds a line feed. -/
structure Unbroken (e : Enumeration) : Prop where
  container : e.container.Unbroken
  types : ∀ a ∈ allAnnotations e, a.type.name.Unbroken
  imported : ∀ a ∈ allAnnotations e, a.type.container.Unbroken
  constants : ∀ a ∈ allAnnotations e, ∀ n o, a.argument = .constant n o → n.Unbroken ∧ o.Unbroken
  values : ∀ m ∈ e.members, e.isNoValue m.value = false → m.value.Unbroken

/-! ## What is spelled keeps to its line -/

theorem oneLine_plainText {v : Value} (h : v.Unbroken) {t : String} (ht : plainText v = .ok t) :
    OneLine t := by
  rw [plainText_eq_ok ht]
  exact v.oneLine_plain h

theorem oneLine_nameText {s : String} (h : OneLine s) : OneLine (nameText s) :=
  oneLine_ite (oneLine_append.mpr ⟨by decide, h⟩) h

theorem oneLine_nameOf {v : Value} (h : v.Unbroken) {t : String} (ht : nameOf v = .ok t) :
    OneLine t := by
  obtain ⟨s, hs, rfl⟩ := nameOf_eq_ok_iff.mp ht
  exact oneLine_nameText (h s hs)

/-- A line feed in a text is written as an escape. -/
theorem feed_not_mem_escape (c : Char) : '\n' ∉ escape c := by
  unfold escape
  split_ifs with h1 h2 h3 h4 h5 h6 h7
  · decide
  · decide
  · decide
  · decide
  · decide
  · decide
  · simp [feed_not_mem_hex]
  · simpa using fun he => h3 he.symm

theorem oneLine_stringLiteral (s : String) : OneLine (stringLiteral s) := by
  rw [stringLiteral, oneLine_ofList]
  simp [stringChars, feed_not_mem_escape]

theorem oneLine_literal {v : Value} {t : String} (h : IsLiteral v t) : OneLine t := by
  cases h with
  | null => decide
  | bool b => cases b <;> decide
  | @int i _ => exact Decimal.oneLine_ofInt i
  | float x => exact fun hmem => absurd (isLiteralChar_of_mem_floatLiteral hmem) (by decide)
  | text s => exact oneLine_stringLiteral s

theorem oneLine_argument {a : Argument} {t : String} (h : IsArgument a t)
    (hc : ∀ n o, a = .constant n o → n.Unbroken ∧ o.Unbroken) : OneLine t := by
  cases h with
  | literal h => exact oneLine_literal h
  | @constant n o s hn _ => exact oneLine_nameText ((hc n o rfl).1 s hn)
  | @owned n o s p hn ho _ =>
    obtain ⟨hname, howner⟩ := hc n o rfl
    rw [oneLine_append, oneLine_append]
    exact ⟨⟨oneLine_nameText (howner p ho), by decide⟩, oneLine_nameText (hname s hn)⟩

theorem isTidy_memberOutline {noValue : Value} {m : Member} {p : MemberOutline}
    (hname : isIdentifierChars m.name.toList = true)
    (hvalue : m.value.eqv noValue = false → m.value.Unbroken)
    (hannotations : ∀ a ∈ m.annotations, a.type.name.Unbroken ∧
      ∀ n o, a.argument = .constant n o → n.Unbroken ∧ o.Unbroken)
    (h : OutlinesMember noValue m p) : p.IsTidy where
  annotations := by
    intro b hb
    obtain ⟨a, ha, hab⟩ := exists_of_forall₂ h.annotations hb
    obtain ⟨hargument, htype⟩ := annotationOutline_eq_ok_iff.mp hab
    exact ⟨oneLine_nameOf (hannotations a ha).1 htype,
      oneLine_argument (argumentText_eq_ok_iff.mp hargument) (hannotations a ha).2⟩
  name := by
    rw [h.name]
    exact isNameToken_nameText hname
  number := by
    intro n hn
    have hnumber := h.number
    rw [Option.mem_def.mp hn] at hnumber
    obtain ⟨hexplicit, htext⟩ := numberText_eq_some_iff.mp hnumber
    exact oneLine_plainText (hvalue hexplicit) htext

/-- What is spelled for such an enumeration breaks no line. -/
theorem isTidy_of_unbroken {e : Enumeration} (hs : Sound e) (h : Unbroken e) {o : Outline}
    (ho : Outlines e o) : o.IsTidy where
  container := by
    intro c hc
    have hcontainer := ho.container
    rw [Option.mem_def.mp hc] at hcontainer
    exact oneLine_plainText h.container (containerText_eq_some_iff.mp hcontainer).2
  imports := by
    intro c hc
    obtain ⟨v, hv, ht⟩ := exists_of_forall₂ ho.imports hc
    rcases mem_importsAfter hv with hv | ⟨a, ha, rfl⟩
    · exact absurd hv (by simp)
    · exact oneLine_plainText (h.imported a ha) ht
  name := by
    rw [ho.name]
    exact not_mem_nameText hs.isIdentifierChars_name (by decide) (by decide)
  members := by
    intro p hp
    obtain ⟨m, hm, hmp⟩ := exists_of_forall₂ ho.members hp
    have hall : ∀ a ∈ m.annotations, a ∈ allAnnotations e := fun a ha =>
      List.mem_flatMap.mpr ⟨m, hm, ha⟩
    exact isTidy_memberOutline (hs.isIdentifierChars_member hm) (h.values m hm)
      (fun a ha => ⟨h.types a (hall a ha), h.constants a (hall a ha)⟩)
      (memberOutline_eq_ok_iff.mp hmp)

/-! ## Two layouts -/

/-- Two source texts of an enumeration that differ in white space only. -/
structure Relaid (e : Enumeration) (s t : String) : Prop where
  /-- Apart from their layout they are the same. -/
  normal : normalLines s.toList = normalLines t.toList
  /-- What is left of either is line by line what is spelled: imports, annotations and members, and
  what opens and closes the blocks around them. -/
  spelled : ∃ o, outline e = .ok o ∧ normalLines t.toList = o.plainLines.map String.toList

/--
**A layout changes white space and nothing else.** In any two layouts that are indented with spaces
and tabs an enumeration fails to be written for the same reason, or the two texts are the same line
by line once the indentation and empty lines are left out and braces on lines of their own are put
behind the lines before them.
-/
theorem relaid_render {e : Enumeration} (h : Reachable e) (hu : Unbroken e) {l k : Layout}
    (hl : l.IsBlank) (hk : k.IsBlank) :
    (∃ fault, render e l = .error fault ∧ render e k = .error fault) ∨
      ∃ s t, render e l = .ok s ∧ render e k = .ok t ∧ Relaid e s t := by
  rw [render_eq, render_eq]
  cases ho : outline e with
  | error fault => exact Or.inl ⟨fault, rfl, rfl⟩
  | ok o =>
    have htidy := isTidy_of_unbroken (sound_reachable h) hu (outline_eq_ok_iff.mp ho)
    have hnormal := (normalLines_text htidy hl).trans (normalLines_text htidy hk).symm
    exact Or.inr ⟨o.text l, o.text k, rfl, rfl, hnormal, o, ho, normalLines_text htidy hk⟩

/-- Members with a date, a gap that a text brings with it, and what looks like a layout in a
literal. -/
def spacious : Enumeration :=
  ((Enumeration.mk "Marks" (.text "Zoo") (.int (-1)) (.bool false) .null [] [] []).run
    [⟨.text "Red", .date ⟨2020, 1, 2⟩,
      .one ⟨⟨.text "Kind", .text "Zoo  Kinds"⟩, .literal (.text " \x7b\n\n  \x7d")⟩⟩,
    ⟨.text "Blue", .null,
      .one ⟨⟨.text "Kind", .null⟩, .constant (.text "Max") (.text " \x7b")⟩⟩]).enumeration

/-- What is written for them with braces at the end of lines and no indentation. -/
def spaciousText : String := "namespace Zoo \x7b\nusing Zoo  Kinds;\n\npublic enum Marks \x7b\n" ++
  "[Kind(\x22 \x7b\\n\\n  \x7d\x22)]\nRed = 2020-01-02,\n[Kind( \x7b.Max)]\nBlue,\n\x7d\n\x7d\n"

theorem relaid_render_spacious : Reachable spacious ∧ Unbroken spacious ∧
    Layout.IsBlank ⟨.ownLine, true, " \t"⟩ ∧ Layout.IsBlank ⟨.endOfLine, false, ""⟩ ∧
    ∃ s, render spacious ⟨.ownLine, true, " \t"⟩ = .ok s ∧
      render spacious ⟨.endOfLine, false, ""⟩ = .ok spaciousText ∧ s ≠ spaciousText ∧
      Relaid spacious s spaciousText := by
  have hd : declare ⟨.text "Marks", .text "Zoo", .bool false, .int (-1), .null⟩
      = .ok ⟨"Marks", .text "Zoo", .int (-1), .bool false, .null, [], [], []⟩ := by cbv
  have hreach : Reachable spacious := reachable_run (.declared hd) _
  have hannotations : allAnnotations spacious
      = [⟨⟨.text "Kind", .text "Zoo  Kinds"⟩, .literal (.text " \x7b\n\n  \x7d")⟩,
        ⟨⟨.text "Kind", .null⟩, .constant (.text "Max") (.text " \x7b")⟩] := by cbv
  have hvalues : spacious.members.map (·.value) = [.date ⟨2020, 1, 2⟩, .int (-1)] := by cbv
  have hcontainer : spacious.container = .text "Zoo" := by cbv
  have htext : ∀ {s : String}, OneLine s → (Value.text s).Unbroken := by
    rintro s hs t ⟨⟩
    exact hs
  have hu : Unbroken spacious := by
    refine ⟨hcontainer ▸ htext (by decide), ?_, ?_, ?_, fun m hm _ => ?_⟩
    · rw [hannotations]
      simp only [List.forall_mem_cons]
      exact ⟨htext (by decide), htext (by decide), by simp⟩
    · rw [hannotations]
      simp only [List.forall_mem_cons]
      exact ⟨htext (by decide), by rintro s ⟨⟩, by simp⟩
    · rw [hannotations]
      simp only [List.forall_mem_cons]
      refine ⟨by rintro n o ⟨⟩, ?_, by simp⟩
      rintro n o ⟨⟩
      exact ⟨htext (by decide), htext (by decide)⟩
    · have hv : m.value ∈ spacious.members.map (·.value) := List.mem_map_of_mem hm
      rw [hvalues] at hv
      simp only [List.mem_cons, List.not_mem_nil, or_false] at hv
      rcases hv with hv | hv <;> rw [hv] <;> rintro s ⟨⟩
  have hl : Layout.IsBlank ⟨.ownLine, true, " \t"⟩ := isBlank_of_all (by decide)
  have hk : Layout.IsBlank ⟨.endOfLine, false, ""⟩ := isBlank_of_all (by decide)
  have hr : render spacious ⟨.endOfLine, false, ""⟩ = .ok spaciousText :=
    eq_ok_of_toOption (by decide +kernel)
  refine ⟨hreach, hu, hl, hk, ?_⟩
  rcases relaid_render hreach hu hl hk with ⟨fault, -, ht⟩ | ⟨s, t, hs, ht, hrelaid⟩
  · exact absurd (hr.symm.trans ht) (by simp)
  · obtain rfl : t = spaciousText := Except.ok.inj (ht.symm.trans hr)
    refine ⟨s, hs, hr, ?_, hrelaid⟩
    rintro rfl
    have hsame : (render spacious ⟨.ownLine, true, " \t"⟩).toOption = some spaciousText := by
      rw [hs]
      rfl
    exact absurd hsame (by decide +kernel)

end EnumDecl.Source
