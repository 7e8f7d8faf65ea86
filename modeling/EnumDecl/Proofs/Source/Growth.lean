import EnumDecl.Proofs.Granted
import EnumDecl.Proofs.Sameness
import EnumDecl.Proofs.Source.Outline

/-!
# A source text grows with its enumeration

The renderer starts over each time. What it writes after one more member is what it wrote before
with something put in at two places all the same (`lines_grow`): the imports that the member needs
behind those that are there, and its own lines behind those of the other members. Two empty lines
depend on what stands before them, the one behind the imports and the one in front of a member.

The imports of an enumeration are the first uses of the namespaces of its annotations, whichever
member they belong to (`imports_eq`), and first uses only ever get more at their end.
-/

namespace EnumDecl.Source

open Enumeration

/-! ## Imports -/

/-- The namespaces of some annotations' types wherever there is one, in order. -/
def usedContainers (as : List Annotation) : List Value :=
  (as.map (·.type.container)).filter (·.isTrue)

/-- Values without those that are the same as an earlier one. -/
def firstUses (vs : List Value) : List Value :=
  vs.eraseDupsBy fun later earlier => earlier.same later

/-- The namespaces that some annotations need besides those that are imported. -/
def importsBesides (seen : List Value) (as : List Annotation) : List Value :=
  firstUses ((usedContainers as).filter fun c => !seen.any fun s => s.same c)

theorem firstUses_cons (v : Value) (vs : List Value) :
    firstUses (v :: vs) = v :: firstUses (vs.filter fun w => !v.same w) := by
  simp [firstUses, List.eraseDupsBy_cons]

theorem usedContainers_cons (a : Annotation) (as : List Annotation) : usedContainers (a :: as)
    = if a.type.container.isTrue then a.type.container :: usedContainers as
    else usedContainers as := by
  rw [usedContainers, List.map_cons, List.filter_cons]
  rfl

/-- **What is imported are first uses.** -/
theorem importsAfter_eq (seen : List Value) (as : List Annotation) :
    importsAfter seen as = seen ++ importsBesides seen as := by
  induction as generalizing seen with
  | nil => exact (List.append_nil seen).symm
  | cons a as ih =>
    rw [importsAfter, importsBesides, usedContainers_cons]
    cases htrue : a.type.container.isTrue with
    | false => exact ih seen
    | true =>
      cases hseen : seen.any fun s => s.same a.type.container with
      | true =>
        rw [if_neg (by simp), if_pos rfl, List.filter_cons_of_neg (by simp [hseen])]
        exact ih seen
      | false =>
        rw [if_pos rfl, if_pos (show (true && !false) = true from rfl),
          List.filter_cons_of_pos (by simp [hseen]), firstUses_cons, ih, List.append_assoc,
          List.singleton_append, importsBesides, List.filter_filter]
        -- what is left of the rest is neither imported before nor the same as the first
        congr 4
        funext c
        simp [Bool.and_comm]

theorem importsAfter_append (seen : List Value) (as bs : List Annotation) :
    importsAfter seen (as ++ bs) = importsAfter (importsAfter seen as) bs := by
  induction as generalizing seen with
  | nil => rfl
  | cons a as ih =>
    rw [List.cons_append, importsAfter, importsAfter]
    split
    · exact ih _
    · exact ih _

theorem imports_eq (e : Enumeration) :
    imports e = firstUses (usedContainers (allAnnotations e)) := by
  rw [imports, importsAfter_eq, importsBesides]
  simp

/-- Every namespace that is used is imported, or the same one is. -/
theorem exists_import {as : List Annotation} {seen : List Value} {a : Annotation} (ha : a ∈ as)
    (ht : a.type.container.isTrue = true) :
    ∃ s ∈ importsAfter seen as, s = a.type.container ∨ s.same a.type.container = true := by
  induction as generalizing seen with
  | nil => exact absurd ha (by simp)
  | cons b as ih =>
    rw [importsAfter]
    rcases List.mem_cons.mp ha with rfl | ha
    · split
      · rw [importsAfter_eq]
        exact ⟨_, by simp, Or.inl rfl⟩
      · rename_i hold
        have hany : seen.any (fun s => s.same a.type.container) = true := by simpa [ht] using hold
        obtain ⟨s, hs, hsame⟩ := List.any_eq_true.mp hany
        rw [importsAfter_eq]
        exact ⟨s, List.mem_append_left _ hs, Or.inr hsame⟩
    · split
      · exact ih ha
      · exact ih ha

/-- A namespace is imported already when an annotation has the same one. -/
theorem any_same_imports_iff {e : Enumeration} {c : Value} (hc : c.isHashable = true)
    (ht : c.isTrue = true) : ((imports e).any fun s => s.same c) = true ↔
      ∃ a ∈ allAnnotations e, a.type.container.same c = true := by
  rw [List.any_eq_true]
  constructor
  · rintro ⟨s, hs, hsame⟩
    rcases mem_importsAfter hs with hs | ⟨a, ha, rfl⟩
    · exact absurd hs (by simp)
    · exact ⟨a, ha, hsame⟩
  · rintro ⟨a, ha, hsame⟩
    have hused := (Value.isTrue_of_same hc hsame).trans ht
    obtain ⟨s, hs, rfl | hold⟩ : ∃ s ∈ imports e, s = a.type.container
      ∨ s.same a.type.container = true := exists_import ha hused
    · exact ⟨_, hs, hsame⟩
    · exact ⟨s, hs, Value.same_trans hc hold hsame⟩

/-! ## Sections -/

/-- The lines of a source text in their order. -/
structure Sections where
  /-- What opens the namespace. -/
  front : List String
  usings : List String
  /-- What opens the enumeration. -/
  opening : List String
  members : List String
  /-- What closes the enumeration, and then what closes the namespace. -/
  closing : List String

namespace Sections

/-- The empty line behind the imports if there are any. -/
def gap (s : Sections) : List String := if s.usings.isEmpty then [] else [""]

/-- All lines. -/
def lines (s : Sections) : List String :=
  s.front ++ s.usings ++ (s.gap ++ s.opening ++ s.members) ++ s.closing

/-- All lines with some others put behind the imports and behind the members. -/
def linesWith (s : Sections) (usings members : List String) : List String :=
  s.front ++ s.usings ++ usings ++ (s.gap ++ s.opening ++ s.members) ++ members ++ s.closing

end Sections

/-- How deep the enumeration itself stands. -/
def depthOf (e : Enumeration) : Nat := if e.container.isTrue then 1 else 0

/-- What stands between two members. -/
def separation (l : Layout) : List String := if l.blankLines then [""] else []

/-- The lines that import some namespaces. -/
def ImportLines (e : Enumeration) (l : Layout) (vs : List Value) (ls : List String) : Prop :=
  List.Forall₂ (fun v line => ∃ t, plainText v = .ok t
    ∧ line = l.pad (depthOf e) ++ "using " ++ t ++ ";") vs ls

/-- The lines of a member: its annotations in order and its declaration. -/
def MemberLines (e : Enumeration) (l : Layout) (m : Member) (ls : List String) : Prop :=
  ∃ annotations declaration,
    List.Forall₂ (fun a t => annotationText a = .ok t) m.annotations annotations
    ∧ declarationText e.noValue m = .ok declaration
    ∧ ls = (annotations ++ [declaration]).map (l.pad (depthOf e + 1) ++ ·)

/-- The sections of an enumeration's source text. -/
structure HasSections (e : Enumeration) (l : Layout) (s : Sections) : Prop where
  /-- A namespace stands around the rest if there is one. -/
  front : if e.container.isTrue
    then ∃ t, plainText e.container = .ok t ∧ s.front = l.openBlock 0 ("namespace " ++ t)
    else s.front = []
  /-- Each namespace is imported where it is used first. -/
  usings : ImportLines e l (firstUses (usedContainers (allAnnotations e))) s.usings
  opening : s.opening = l.openBlock (depthOf e) ("public enum " ++ nameText e.name)
  /-- The members stand in their order. -/
  members : ∃ blocks, List.Forall₂ (MemberLines e l) e.members blocks
    ∧ s.members = (separation l).intercalate blocks
  closing : s.closing
    = l.closeBlock (depthOf e) :: if e.container.isTrue then [l.closeBlock 0] else []

/-- What one more member makes of a source text. -/
structure Grows (e : Enumeration) (m : Member) (l : Layout) (s : Sections) (after : List String) :
    Prop where
  /-- What it needs is put behind the imports, with an empty line if these are the first, and what
  it is behind the members, with a separation if it is not the first. -/
  lines : ∃ usings block, ImportLines e l (importsBesides (imports e) m.annotations) usings
    ∧ MemberLines e l m block
    ∧ after = s.linesWith
        (usings ++ if s.usings.isEmpty && !usings.isEmpty then [""] else [])
        ((if e.members.isEmpty then [] else separation l) ++ block)
  /-- What is imported besides is no namespace that an earlier annotation has. -/
  besides : ∀ c ∈ usedContainers m.annotations, c.isHashable = true →
    (((imports e).any fun s => s.same c) = true ↔
      ∃ a ∈ allAnnotations e, a.type.container.same c = true)

/-- The sections of an outline. -/
def Outline.sections (o : Outline) (l : Layout) (depth : Nat) : Sections where
  front := match o.container with
    | some c => l.openBlock 0 ("namespace " ++ c)
    | none => []
  usings := o.imports.map (l.pad depth ++ importText ·)
  opening := l.openBlock depth ("public enum " ++ o.name)
  members := memberOutlineLines l (depth + 1) true o.members
  closing := l.closeBlock depth :: match o.container with
    | some _ => [l.closeBlock 0]
    | none => []

theorem importOutlineLines_eq (l : Layout) (depth : Nat) (imported : List String) :
    importOutlineLines l depth imported = imported.map (l.pad depth ++ importText ·) ++
      if (imported.map (l.pad depth ++ importText ·)).isEmpty then [] else [""] := by
  cases imported <;> simp [importOutlineLines]

/-- The lines of an outline are those of its sections. -/
theorem lines_sections {e : Enumeration} {o : Outline} (h : Outlines e o) (l : Layout) :
    o.lines l = (o.sections l (depthOf e)).lines := by
  have hcontainer := h.container
  unfold Outline.lines Outline.bodyLines Sections.lines Sections.gap Outline.sections
  simp only [importOutlineLines_eq]
  cases hc : o.container with
  | none =>
    rw [hc] at hcontainer
    simp [depthOf, containerText_eq_none_iff.mp hcontainer]
  | some c =>
    rw [hc] at hcontainer
    simp [depthOf, (containerText_eq_some_iff.mp hcontainer).1]

/-! ## Members -/

/-- The lines of a member of an outline, indented. -/
def MemberOutline.block (l : Layout) (depth : Nat) (m : MemberOutline) : List String :=
  m.texts.map (l.pad depth ++ ·)

theorem memberOutlineLines_cons (l : Layout) (depth : Nat) (m : MemberOutline)
    (ms : List MemberOutline) : memberOutlineLines l depth true (m :: ms)
      = m.block l depth ++ memberOutlineLines l depth false ms := by
  simp [memberOutlineLines, MemberOutline.block]

theorem memberOutlineLines_false (l : Layout) (depth : Nat) (ms : List MemberOutline) :
    memberOutlineLines l depth false ms
      = (ms.map (MemberOutline.block l depth)).flatMap (separation l ++ ·) := by
  induction ms with
  | nil => rfl
  | cons m ms ih =>
    rw [memberOutlineLines, ih]
    simp [separation, MemberOutline.block]

theorem intercalate_cons {α : Type} (sep xs : List α) (xss : List (List α)) :
    sep.intercalate (xs :: xss) = xs ++ xss.flatMap (sep ++ ·) := by
  induction xss generalizing xs with
  | nil => simp
  | cons ys xss ih => rw [List.intercalate_cons_cons, ih, List.flatMap_cons, List.append_assoc,
      List.append_assoc]

/-- Members stand in their order and are separated from each other. -/
theorem memberOutlineLines_true (l : Layout) (depth : Nat) (ms : List MemberOutline) :
    memberOutlineLines l depth true ms
      = (separation l).intercalate (ms.map (MemberOutline.block l depth)) := by
  cases ms with
  | nil => rfl
  | cons m ms =>
    rw [memberOutlineLines_cons, memberOutlineLines_false, List.map_cons, intercalate_cons]

/-- One more member stands behind the others. -/
theorem memberOutlineLines_snoc (l : Layout) (depth : Nat) (ms : List MemberOutline)
    (m : MemberOutline) : memberOutlineLines l depth true (ms ++ [m])
      = memberOutlineLines l depth true ms ++
        ((if ms.isEmpty then [] else separation l) ++ m.block l depth) := by
  cases ms with
  | nil => simp [memberOutlineLines, MemberOutline.block]
  | cons n ms => simp [memberOutlineLines, memberOutlineLines_false]

theorem memberLines_of_outline {e : Enumeration} {l : Layout} {m : Member} {p : MemberOutline}
    (h : memberOutline e.noValue m = .ok p) : MemberLines e l m (p.block l (depthOf e + 1)) := by
  have hm := memberOutline_eq_ok_iff.mp h
  refine ⟨p.annotations.map AnnotationOutline.text, p.declaration, ?_, ?_, rfl⟩
  · rw [List.forall₂_map_right_iff]
    exact hm.annotations.imp fun a b hb => by rw [annotationText_eq, hb]; rfl
  · rw [declarationText_eq e.noValue m p.annotations, hm.number, ← hm.name]
    rfl

theorem importLines_of_outline {e : Enumeration} {l : Layout} {vs : List Value} {ts : List String}
    (h : List.Forall₂ (fun v t => plainText v = .ok t) vs ts) :
    ImportLines e l vs (ts.map (l.pad (depthOf e) ++ importText ·)) := by
  unfold ImportLines
  rw [List.forall₂_map_right_iff]
  exact h.imp fun v t ht => ⟨t, ht, by simp [importText, String.append_assoc]⟩

/-- The sections of an outline are those of its enumeration. -/
theorem hasSections_of_outline {e : Enumeration} {o : Outline} (h : Outlines e o) (l : Layout) :
    HasSections e l (o.sections l (depthOf e)) := by
  have hcontainer := h.container
  refine ⟨?_, ?_, ?_, ⟨o.members.map (MemberOutline.block l (depthOf e + 1)), ?_, ?_⟩, ?_⟩
  · cases hc : o.container with
    | none =>
      rw [hc] at hcontainer
      simp [Outline.sections, hc, containerText_eq_none_iff.mp hcontainer]
    | some c =>
      rw [hc] at hcontainer
      simp [Outline.sections, hc, containerText_eq_some_iff.mp hcontainer]
  · rw [← imports_eq]
    exact importLines_of_outline h.imports
  · rw [← h.name]
    rfl
  · rw [List.forall₂_map_right_iff]
    exact h.members.imp fun m p => memberLines_of_outline
  · exact memberOutlineLines_true l (depthOf e + 1) o.members
  · cases hc : o.container with
    | none =>
      rw [hc] at hcontainer
      simp [Outline.sections, hc, containerText_eq_none_iff.mp hcontainer]
    | some c =>
      rw [hc] at hcontainer
      simp [Outline.sections, hc, (containerText_eq_some_iff.mp hcontainer).1]

/-! ## One more member -/

theorem lines_eq_ok_iff {e : Enumeration} {l : Layout} {ls : List String} :
    lines e l = .ok ls ↔ ∃ o, Outlines e o ∧ o.lines l = ls := by
  rw [lines_eq]
  constructor
  · intro h
    cases ho : outline e with
    | error _ =>
      rw [ho] at h
      exact absurd h (by simp [Except.map])
    | ok o =>
      rw [ho] at h
      exact ⟨o, outline_eq_ok_iff.mp ho, Except.ok.inj h⟩
  · rintro ⟨o, ho, rfl⟩
    rw [outline_eq_ok_iff.mpr ho]
    rfl

theorem imports_of_members {e f : Enumeration} {m : Member} (h : f.members = e.members ++ [m]) :
    imports f = imports e ++ importsBesides (imports e) m.annotations := by
  unfold imports allAnnotations
  rw [h, List.flatMap_append, importsAfter_append, importsAfter_eq (importsAfter _ _)]
  simp

/-- The outline with one more member is the outline without it and what is spelled of the
member. -/
theorem outlines_of_stored {e f : Enumeration} {r : Request} {m : Member} (h : Stored e r m f)
    {o : Outline} (ho : Outlines f o) : ∃ before usings p, Outlines e before
      ∧ List.Forall₂ (fun v t => plainText v = .ok t)
        (importsBesides (imports e) m.annotations) usings
      ∧ memberOutline e.noValue m = .ok p
      ∧ o = ⟨before.container, before.imports ++ usings, before.name, before.members ++ [p]⟩ := by
  obtain ⟨container, imported, name, members⟩ := o
  obtain ⟨hname, hcontainer, hnoValue, -, -⟩ := h.unchanged
  have himports := ho.imports
  have hmembers := ho.members
  rw [imports_of_members h.members] at himports
  rw [h.members, hnoValue] at hmembers
  obtain ⟨earlier, usings, rfl, hearlier, husings⟩ := exists_append_of_forall₂ himports
  obtain ⟨others, last, rfl, hothers, hlast⟩ := exists_append_of_forall₂ hmembers
  obtain ⟨p, _, hp, hnil, rfl⟩ := List.forall₂_cons_left_iff.mp hlast
  obtain rfl := List.forall₂_nil_left_iff.mp hnil
  refine ⟨⟨container, earlier, name, others⟩, usings, p, ⟨?_, hearlier, ?_, hothers⟩, husings,
    hp, rfl⟩
  · rw [← ho.container, containerText, containerText, hcontainer]
  · rw [← hname]
    exact ho.name

/-- Sections with more imports and more members. -/
theorem lines_growing (s : Sections) (usings members : List String) :
    Sections.lines ⟨s.front, s.usings ++ usings, s.opening, s.members ++ members, s.closing⟩
      = s.linesWith (usings ++ if s.usings.isEmpty && !usings.isEmpty then [""] else [])
      members := by
  unfold Sections.lines Sections.linesWith Sections.gap
  cases s.usings with
  | nil => cases usings <;> simp
  | cons u us => simp

/-- **One more member** puts its lines behind those of the others, and what it imports behind what
is imported. -/
theorem grows_of_stored {e f : Enumeration} {r : Request} {m : Member} (h : Stored e r m f)
    {l : Layout} {after : List String} (hl : lines f l = .ok after) :
    ∃ s : Sections, lines e l = .ok s.lines ∧ HasSections e l s ∧ Grows e m l s after := by
  obtain ⟨o, ho, rfl⟩ := lines_eq_ok_iff.mp hl
  obtain ⟨before, usings, p, hbefore, husings, hp, rfl⟩ := outlines_of_stored h ho
  have hdepth : depthOf f = depthOf e := by rw [depthOf, depthOf, h.unchanged.2.1]
  refine ⟨before.sections l (depthOf e),
    lines_eq_ok_iff.mpr ⟨before, hbefore, lines_sections hbefore l⟩,
    hasSections_of_outline hbefore l,
    ⟨_, _, importLines_of_outline husings, memberLines_of_outline hp, ?_⟩, ?_⟩
  · have hempty : e.members.isEmpty = before.members.isEmpty := by
      rw [Bool.eq_iff_iff, List.isEmpty_iff_length_eq_zero, List.isEmpty_iff_length_eq_zero,
        hbefore.members.length_eq]
    rw [lines_sections ho, hdepth, hempty, ← lines_growing]
    unfold Outline.sections
    rw [memberOutlineLines_snoc, List.map_append]
  · intro c hc hhash
    exact any_same_imports_iff hhash (List.mem_filter.mp hc).2

/-- A text is made of lines. -/
theorem exists_lines_of_render {e : Enumeration} {l : Layout} {text : String}
    (h : render e l = .ok text) : ∃ ls, lines e l = .ok ls ∧ text = unlines ls := by
  rw [render] at h
  cases hl : lines e l with
  | error _ => exact absurd (hl ▸ h) (by simp [Except.map])
  | ok ls =>
    rw [hl] at h
    exact ⟨ls, rfl, (Except.ok.inj h).symm⟩

/-! ## A whole run -/

/--
**A source text grows with its enumeration.** Where a member is granted and the enumeration with it
can be written, it could be written before, and the lines are those from before with the imports
that the member needs behind the other imports and its own lines behind those of the other members.
The text is these lines, each with a line feed. So after any requests the members stand in the
order in which they were put into the list, which is that of the requests, and each namespace is
imported where it is used first.
-/
theorem lines_grow {e : Enumeration} (h : Reachable e) (l : Layout) :
    (∀ r m after, (e.add r).result = .ok m → lines (e.add r).enumeration l = .ok after →
      ∃ s : Sections, lines e l = .ok s.lines ∧ HasSections e l s ∧ Grows e m l s after) ∧
    (∀ r m text, (e.add r).result = .ok m → render (e.add r).enumeration l = .ok text →
      ∃ (s : Sections) (after : List String), render e l = .ok (unlines s.lines)
        ∧ HasSections e l s ∧ Grows e m l s after ∧ text = unlines after) ∧
    ∀ rs, (∃ appended, (e.run rs).enumeration.members = e.members ++ appended.flatten
        ∧ List.Forall₂ Appends (e.run rs).results appended)
      ∧ ((∀ r ∈ rs, ¬ e.GivesSet r) → (e.run rs).enumeration.members
        = e.members ++ (e.run rs).results.filterMap Except.toOption)
      ∧ ∀ ls, lines (e.run rs).enumeration l = .ok ls →
        ∃ s : Sections, ls = s.lines ∧ HasSections (e.run rs).enumeration l s := by
  have hsound := sound_reachable h
  have hgrows : ∀ r m after, (e.add r).result = .ok m → lines (e.add r).enumeration l = .ok after →
      ∃ s : Sections, lines e l = .ok s.lines ∧ HasSections e l s ∧ Grows e m l s after :=
    fun r m after hr hl => grows_of_stored (stored_of_ok hsound hr) hl
  refine ⟨hgrows, fun r m text hr htext => ?_,
    fun rs => ⟨exists_appended e rs, members_run hsound, fun ls hl => ?_⟩⟩
  · obtain ⟨after, hafter, rfl⟩ := exists_lines_of_render htext
    obtain ⟨s, hs, hsections, hafter⟩ := hgrows r m after hr hafter
    exact ⟨s, after, by rw [render, hs]; rfl, hsections, hafter, rfl⟩
  · obtain ⟨o, ho, rfl⟩ := lines_eq_ok_iff.mp hl
    exact ⟨_, lines_sections ho l, hasSections_of_outline ho l⟩

/-- An enumeration that imports nothing yet. -/
def uninked : Enumeration :=
  (Enumeration.run ⟨"Colors", .text "Art", .int (-1), .bool false, .null, [], [], []⟩
    [⟨.text "Red", .int 1, .one ⟨⟨.text "Old", .text ""⟩, .literal (.bool true)⟩⟩]).enumeration

/-- A namespace that is used twice, one of its own, and none. -/
def inkedAnnotations : List Annotation := [⟨⟨.text "Ink", .text "Inks"⟩, .literal (.text "g")⟩,
  ⟨⟨.text "Old", .text ""⟩, .literal (.bool false)⟩,
  ⟨⟨.text "Wet", .text "Inks"⟩, .constant (.text "Slow") (.text "Dry")⟩,
  ⟨⟨.text "Mix", .text "Pots"⟩, .literal .null⟩]

/-- A member with these. -/
def inked : Request := ⟨.text "Green", .null, .many inkedAnnotations⟩

/-- What is written with it. -/
def inkedLines : List String := ["namespace Art \x7b", "\tusing Inks;", "\tusing Pots;", "",
  "\tpublic enum Colors \x7b", "\t\t[Old(true)]", "\t\tRed = 1,", "", "\t\t[Ink(\x22g\x22)]",
  "\t\t[Old(false)]", "\t\t[Wet(Dry.Slow)]", "\t\t[Mix(null)]", "\t\tGreen,", "\t\x7d", "\x7d"]

/-- The first imports come with the second member. -/
theorem lines_grow_inked : Reachable uninked ∧
    (uninked.add inked).result = .ok ⟨"Green", .int (-1), inkedAnnotations⟩ ∧
    lines (uninked.add inked).enumeration ⟨.endOfLine, true, "\t"⟩ = .ok inkedLines ∧
    ∃ s : Sections, lines uninked ⟨.endOfLine, true, "\t"⟩ = .ok s.lines ∧
      HasSections uninked ⟨.endOfLine, true, "\t"⟩ s ∧
      Grows uninked ⟨"Green", .int (-1), inkedAnnotations⟩ ⟨.endOfLine, true, "\t"⟩ s inkedLines ∧
      render uninked ⟨.endOfLine, true, "\t"⟩ = .ok (unlines s.lines) := by
  have hd : declare ⟨.text "Colors", .text "Art", .bool false, .int (-1), .null⟩
      = .ok ⟨"Colors", .text "Art", .int (-1), .bool false, .null, [], [], []⟩ := by cbv
  have hreach : Reachable uninked := reachable_run (.declared hd) _
  have hadd : (uninked.add inked).result = .ok ⟨"Green", .int (-1), inkedAnnotations⟩ := by cbv
  have hlines : lines (uninked.add inked).enumeration ⟨.endOfLine, true, "\t"⟩ = .ok inkedLines :=
    eq_ok_of_toOption (by decide +kernel)
  obtain ⟨s, hs, hsections, hgrows⟩ := (lines_grow hreach _).1 _ _ _ hadd hlines
  exact ⟨hreach, hadd, hlines, s, hs, hsections, hgrows, by rw [render, hs]; rfl⟩

end EnumDecl.Source
