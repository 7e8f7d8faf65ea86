import EnumDecl.Proofs.Source.Containment
import EnumDecl.Proofs.Source.Growth

/-!
# Brackets nest

To count the braces of a source text says nothing about it, as a literal may have any number of
them. A reader passes over literals. Of what is left the brackets close in the order in which they
were opened, each by its own, and the braces are those of the namespace, if there is one, and of
the enumeration (`render_nests`).

A part of the text is read with some brackets open, and leaves others open (`Nests`). Parts stand
one after another. Most of them leave everything as it was (`Level`): lines of imports and members
do, whatever is in their literals. It takes a line that opens or closes a block to make a
difference. What is written as it was given may have no quote and no bracket (`UnmarkedAround`).
-/

namespace EnumDecl.Source

open Enumeration Identifier

/-! ## Where no mark is -/

/-- There is no quote and no bracket among some characters. -/
def Unmarked (cs : List Char) : Prop := ∀ c ∈ marks, c ∉ cs

theorem unmarked_of_all {cs : List Char} (h : (marks.all fun c => !cs.contains c) = true) :
    Unmarked cs := by
  intro c hc hmem
  have hnone := List.all_eq_true.mp h c hc
  rw [List.contains_iff_mem.mpr hmem] at hnone
  exact absurd hnone (by simp)

theorem unmarked_nil : Unmarked [] := fun _ _ => List.not_mem_nil

theorem Unmarked.append {cs ds : List Char} (h : Unmarked cs) (k : Unmarked ds) :
    Unmarked (cs ++ ds) :=
  fun c hc hmem => (List.mem_append.mp hmem).elim (h c hc) (k c hc)

/-- No quote and no bracket is in what an annotation refers to. -/
structure UnmarkedReferences (a : Annotation) : Prop where
  type : Unmarked a.type.name.plain.toList
  container : Unmarked a.type.container.plain.toList
  constant : ∀ n o, a.argument = .constant n o → Unmarked n.plain.toList ∧ Unmarked o.plain.toList

/-- No quote and no bracket is in the namespaces of an enumeration nor in what its annotations
refer to, and its numbers are numbers. -/
structure UnmarkedAround (e : Enumeration) : Prop where
  container : Unmarked e.container.plain.toList
  annotations : ∀ a ∈ allAnnotations e, UnmarkedReferences a
  numbers : ∀ m ∈ e.members, e.isNoValue m.value = false →
    (∃ i, m.value.bare = .int i) ∨ ∃ b, m.value.bare = .bool b

/-! ## Reading one part after another -/

theorem nest_append (stack : List Char) (ps qs : List Piece) :
    nest stack (ps ++ qs) = (nest stack ps).bind fun open_ => nest open_ qs := by
  induction ps generalizing stack with
  | nil => rfl
  | cons p ps ih =>
    cases p with
    | string text => exact ih stack
    | outside c =>
      rw [List.cons_append, nest, nest]
      cases nestChar stack c with
      | none => rfl
      | some after => exact ih after

theorem braces_append (ps qs : List Piece) : braces (ps ++ qs) = braces ps ++ braces qs :=
  List.filterMap_append

theorem nestChar_of_not_mem {c : Char} (h : c ∉ marks) (stack : List Char) :
    nestChar stack c = some stack := by
  simp only [marks, List.mem_cons, List.not_mem_nil, or_false, not_or] at h
  simp [nestChar, isOpening, opening?, h]

/-- A text that is read with some brackets open leaves others open, and has some braces in it. -/
def Nests (cs before after bs : List Char) : Prop :=
  ∃ ps, MadeOf cs ps ∧ nest before ps = some after ∧ braces ps = bs

/-- A text leaves those brackets open that are open before it, and has no braces. -/
def Level (cs : List Char) : Prop := ∀ stack, Nests cs stack stack []

namespace Nests

theorem append {cs ds s t u bs ks : List Char} (h : Nests cs s t bs) (k : Nests ds t u ks) :
    Nests (cs ++ ds) s u (bs ++ ks) := by
  obtain ⟨ps, hps, hnest, rfl⟩ := h
  obtain ⟨qs, hqs, hnest', rfl⟩ := k
  refine ⟨ps ++ qs, hps.append hqs, ?_, braces_append ps qs⟩
  rw [nest_append, hnest]
  exact hnest'

/-- One character outside of literals. -/
theorem char {c : Char} {s t : List Char} (hc : c ≠ '\x22') (h : nestChar s c = some t) :
    Nests [c] s t (braces [.outside c]) := by
  refine ⟨[.outside c], MadeOf.outside (by simp [Ne.symm hc]), ?_, rfl⟩
  rw [nest, h]
  rfl

end Nests

namespace Level

theorem append {cs ds : List Char} (h : Level cs) (k : Level ds) : Level (cs ++ ds) :=
  fun stack => (h stack).append (k stack)

theorem outside {cs : List Char} (h : Unmarked cs) : Level cs := by
  intro stack
  refine ⟨_, MadeOf.outside (h _ quote_mem_marks), ?_, ?_⟩
  · induction cs with
    | nil => rfl
    | cons c cs ih =>
      have hc : c ∉ marks := fun hmem => h c hmem List.mem_cons_self
      rw [List.map_cons, nest, nestChar_of_not_mem hc]
      exact ih fun d hd hmem => h d hd (List.mem_cons_of_mem _ hmem)
  · rw [braces, List.filterMap_map]
    refine List.filterMap_eq_nil_iff.mpr fun c hc => if_neg ?_
    rintro (rfl | rfl)
    · exact h _ (by decide) hc
    · exact h _ (by decide) hc

/-- **A literal is passed over**, whatever it stands for. -/
theorem string (text : List Char) : Level (stringChars text) :=
  fun _ => ⟨_, .string text, rfl, rfl⟩

/-- What is in brackets may stand in brackets that are no braces. -/
theorem between {o c : Char} (ho : ∀ s, Nests [o] s (o :: s) [])
    (hc : ∀ s, Nests [c] (o :: s) s [])
    {cs : List Char} (h : Level cs) : Level (o :: (cs ++ [c])) :=
  fun stack => (ho stack).append ((h (o :: stack)).append (hc stack))

theorem brackets {cs : List Char} (h : Level cs) : Level ('[' :: (cs ++ [']'])) :=
  h.between (fun _ => .char (by decide) rfl) fun _ => .char (by decide) rfl

theorem parentheses {cs : List Char} (h : Level cs) : Level ('(' :: (cs ++ [')'])) :=
  h.between (fun _ => .char (by decide) rfl) fun _ => .char (by decide) rfl

end Level

/-! ## Lines -/

/-- What some lines do with the open brackets. -/
def NestsLines (ls : List String) (before after bs : List Char) : Prop :=
  Nests (unlines ls).toList before after bs

namespace NestsLines

theorem append {ls ks : List String} {s t u bs cs : List Char} (h : NestsLines ls s t bs)
    (k : NestsLines ks t u cs) : NestsLines (ls ++ ks) s u (bs ++ cs) := by
  unfold NestsLines
  rw [unlines_append, String.toList_append]
  exact Nests.append h k

theorem line {line : String} {s t bs : List Char} (h : Nests line.toList s t bs) :
    NestsLines [line] s t bs := by
  unfold NestsLines
  have hfeed : Unmarked ['\n'] := unmarked_of_all (by decide)
  have hline := h.append (Level.outside hfeed t)
  rw [List.append_nil] at hline
  rw [toList_unlines, List.flatMap_singleton]
  exact hline

theorem level {ls : List String} (h : ∀ line ∈ ls, Level line.toList) (stack : List Char) :
    NestsLines ls stack stack [] := by
  induction ls with
  | nil => exact Level.outside unmarked_nil stack
  | cons x ls ih =>
    have hfirst : NestsLines [x] stack stack [] := line (h x List.mem_cons_self stack)
    have hrest := ih fun y hy => h y (List.mem_cons_of_mem _ hy)
    exact hfirst.append hrest

end NestsLines

section

variable {l : Layout} (hl : l.IsBlank)

include hl

theorem unmarked_pad (depth : Nat) : Unmarked (l.pad depth).toList :=
  fun _ hc => mark_not_mem_pad hc hl depth

/-- **A block is opened by one brace**, in either style. -/
theorem nestsLines_openBlock (depth : Nat) {header : String} (h : Unmarked header.toList)
    (stack : List Char) :
    NestsLines (l.openBlock depth header) stack ('\x7b' :: stack) ['\x7b'] := by
  have hpad := unmarked_pad hl depth
  have hbrace : Nests ['\x7b'] stack ('\x7b' :: stack) ['\x7b'] := .char (by decide) rfl
  have hheader : Level (l.pad depth ++ header).toList := by
    rw [String.toList_append]
    exact .outside (hpad.append h)
  unfold Layout.openBlock
  cases l.braces with
  | endOfLine =>
    have hopen : Level (l.pad depth ++ header ++ " ").toList := by
      rw [String.toList_append]
      exact hheader.append (.outside (unmarked_of_all (by decide)))
    refine .line ?_
    rw [show l.pad depth ++ header ++ " \x7b" = l.pad depth ++ header ++ " " ++ "\x7b" by
      simp [String.append_assoc], String.toList_append]
    exact (hopen stack).append hbrace
  | ownLine =>
    have hown : NestsLines [l.pad depth ++ "\x7b"] stack ('\x7b' :: stack) ['\x7b'] := by
      refine .line ?_
      rw [String.toList_append]
      exact (Level.outside hpad stack).append hbrace
    have hfirst : NestsLines [l.pad depth ++ header] stack stack [] := .line (hheader stack)
    exact hfirst.append hown

theorem nestsLines_closeBlock (depth : Nat) (stack : List Char) :
    NestsLines [l.closeBlock depth] ('\x7b' :: stack) stack ['\x7d'] := by
  refine .line ?_
  rw [Layout.closeBlock, String.toList_append]
  exact (Level.outside (unmarked_pad hl depth) _).append (.char (by decide) rfl)

end

/-! ## The lines of an outline -/

theorem level_argument {a : Argument} {t : String} (h : argumentText a = .ok t)
    (hu : ∀ n o, a = .constant n o → Unmarked n.plain.toList ∧ Unmarked o.plain.toList) :
    Level t.toList := by
  cases hs : literalString? a with
  | none =>
    exact .outside fun c hc => mark_not_mem_argument hc h hs fun n o ha =>
      ⟨(hu n o ha).1 c hc, (hu n o ha).2 c hc⟩
  | some s =>
    rw [argumentText_of_literalString hs] at h
    cases h
    rw [stringLiteral, String.toList_ofList]
    exact .string _

theorem level_annotation {a : Annotation} (hu : UnmarkedReferences a) {p : AnnotationOutline}
    (h : annotationOutline a = .ok p) : Level p.text.toList := by
  obtain ⟨hargument, htype⟩ := annotationOutline_eq_ok_iff.mp h
  have hname : Level p.type.toList :=
    .outside fun c hc => mark_not_mem_nameOf hc (hu.type c hc) htype
  have hinner := hname.append (level_argument hargument hu.constant).parentheses
  rw [toList_annotationText]
  simpa [List.append_assoc] using hinner.brackets

/-- What is assumed of a member of an enumeration around which no quote and no bracket stands. -/
structure UnmarkedMember (noValue : Value) (m : Member) : Prop where
  name : isIdentifierChars m.name.toList = true
  annotations : ∀ a ∈ m.annotations, UnmarkedReferences a
  number : m.value.eqv noValue = false →
    (∃ i, m.value.bare = .int i) ∨ ∃ b, m.value.bare = .bool b

theorem unmarkedMember {e : Enumeration} (h : Sound e) (hu : UnmarkedAround e) {m : Member}
    (hm : m ∈ e.members) : UnmarkedMember e.noValue m where
  name := h.isIdentifierChars_member hm
  annotations := fun a ha => hu.annotations a (List.mem_flatMap.mpr ⟨m, hm, ha⟩)
  number := hu.numbers m hm

theorem level_declaration {noValue : Value} {m : Member} (hu : UnmarkedMember noValue m)
    {p : MemberOutline} (h : OutlinesMember noValue m p) : Level p.declaration.toList := by
  refine .outside fun c hc => mark_not_mem_declaration hc ?_ fun n hn => ?_
  · rw [h.name]
    exact mark_not_mem_identifier hc hu.name
  · have hp := h.number
    rw [Option.mem_def] at hn
    rw [hn] at hp
    exact mark_not_mem_number hc hu.number hp

theorem level_texts {noValue : Value} {m : Member} (hu : UnmarkedMember noValue m)
    {p : MemberOutline} (h : OutlinesMember noValue m p) : ∀ t ∈ p.texts, Level t.toList := by
  intro t ht
  rcases List.mem_append.mp ht with ht | ht
  · obtain ⟨q, hq, rfl⟩ := List.mem_map.mp ht
    obtain ⟨a, ha, hp⟩ := exists_of_forall₂ h.annotations hq
    exact level_annotation (hu.annotations a ha) hp
  · rw [List.mem_singleton.mp ht]
    exact level_declaration hu h

theorem level_memberOutlineLines {l : Layout} (hl : l.IsBlank) (depth : Nat) (first : Bool)
    {ps : List MemberOutline} (h : ∀ p ∈ ps, ∀ t ∈ p.texts, Level t.toList) :
    ∀ line ∈ memberOutlineLines l depth first ps, Level line.toList := by
  induction ps generalizing first with
  | nil => exact fun line hline => absurd hline List.not_mem_nil
  | cons p ps ih =>
    intro line hline
    rw [memberOutlineLines, List.append_assoc] at hline
    rcases List.mem_append.mp hline with hgap | hline
    · split at hgap
      · rw [List.mem_singleton.mp hgap]
        exact .outside unmarked_nil
      · exact absurd hgap List.not_mem_nil
    rcases List.mem_append.mp hline with hline | hline
    · obtain ⟨t, ht, rfl⟩ := List.mem_map.mp hline
      rw [String.toList_append]
      exact (Level.outside (unmarked_pad hl depth)).append (h p List.mem_cons_self t ht)
    · exact ih false (fun q hq => h q (List.mem_cons_of_mem _ hq)) line hline

/-- The lines in front of the members. -/
def Sections.before (s : Sections) : List String := s.front ++ s.usings ++ (s.gap ++ s.opening)

theorem Sections.lines_eq_before (s : Sections) :
    s.lines = s.before ++ s.members ++ s.closing := by
  simp [Sections.lines, Sections.before, List.append_assoc]

/-- As many blocks are open in front of the members as there are to be closed behind them. -/
structure Framed (e : Enumeration) (s : Sections) : Prop where
  before : NestsLines s.before [] (List.replicate (depthOf e + 1) '\x7b')
    (List.replicate (depthOf e + 1) '\x7b')
  members : ∀ line ∈ s.members, Level line.toList
  closing : NestsLines s.closing (List.replicate (depthOf e + 1) '\x7b') []
    (List.replicate (depthOf e + 1) '\x7d')

/-- What opens and closes the namespace, if there is one. -/
theorem nests_container {e : Enumeration} (hu : UnmarkedAround e) {o : Outline} (ho : Outlines e o)
    {l : Layout} (hl : l.IsBlank) (depth : Nat) :
    NestsLines (o.sections l depth).front [] (List.replicate (depthOf e) '\x7b')
      (List.replicate (depthOf e) '\x7b') ∧
    ∃ last, (o.sections l depth).closing = l.closeBlock depth :: last ∧
      NestsLines last (List.replicate (depthOf e) '\x7b') []
      (List.replicate (depthOf e) '\x7d') := by
  have hcontainer := ho.container
  cases hc : o.container with
  | none =>
    rw [hc] at hcontainer
    have hdepth : depthOf e = 0 := by simp [depthOf, containerText_eq_none_iff.mp hcontainer]
    rw [hdepth]
    simp only [Outline.sections, hc]
    have hnone : NestsLines [] [] [] [] := .level (fun _ hline => absurd hline List.not_mem_nil) []
    exact ⟨hnone, [], rfl, hnone⟩
  | some c =>
    rw [hc] at hcontainer
    obtain ⟨htrue, hplain⟩ := containerText_eq_some_iff.mp hcontainer
    have hdepth : depthOf e = 1 := by simp [depthOf, htrue]
    have hname : Unmarked ("namespace " ++ c).toList := by
      rw [String.toList_append, plainText_eq_ok hplain]
      exact (unmarked_of_all (by decide)).append hu.container
    rw [hdepth]
    simp only [Outline.sections, hc]
    exact ⟨nestsLines_openBlock hl 0 hname [], [l.closeBlock 0], rfl,
      nestsLines_closeBlock hl 0 []⟩

/-- Imports are read past. -/
theorem level_usings {e : Enumeration} (hu : UnmarkedAround e) {o : Outline} (ho : Outlines e o)
    {l : Layout} (hl : l.IsBlank) (depth : Nat) :
    (∀ line ∈ (o.sections l depth).usings, Level line.toList) ∧
      ∀ line ∈ (o.sections l depth).gap, Level line.toList := by
  constructor
  · intro line hline
    obtain ⟨t, ht, rfl⟩ := List.mem_map.mp hline
    obtain ⟨v, hv, hplain⟩ := exists_of_forall₂ ho.imports ht
    have hcontainer : Unmarked t.toList := by
      rw [plainText_eq_ok hplain]
      rcases mem_importsAfter hv with hv | ⟨a, ha, rfl⟩
      · exact absurd hv List.not_mem_nil
      · exact (hu.annotations a ha).container
    rw [String.toList_append, toList_importText]
    exact .outside ((unmarked_pad hl _).append ((unmarked_of_all (by decide)).append
      (hcontainer.append (unmarked_of_all (by decide)))))
  · intro line hline
    unfold Sections.gap at hline
    split at hline
    · exact absurd hline List.not_mem_nil
    · rw [List.mem_singleton.mp hline]
      exact .outside unmarked_nil

theorem framed_sections {e : Enumeration} (h : Sound e) (hu : UnmarkedAround e) {o : Outline}
    (ho : Outlines e o) {l : Layout} (hl : l.IsBlank) : Framed e (o.sections l (depthOf e)) := by
  obtain ⟨hfront, last, hclosing, hlast⟩ := nests_container hu ho hl (depthOf e)
  obtain ⟨husings, hgap⟩ := level_usings hu ho hl (depthOf e)
  have hname : Unmarked ("public enum " ++ o.name).toList := by
    rw [String.toList_append, ho.name]
    exact (unmarked_of_all (by decide)).append fun c hc =>
      mark_not_mem_identifier hc h.isIdentifierChars_name
  have hopening := nestsLines_openBlock hl (depthOf e) hname
  refine ⟨?_, ?_, ?_⟩
  · have hbefore := (hfront.append (.level husings _)).append
      ((NestsLines.level hgap _).append (hopening _))
    rw [List.append_nil, List.nil_append, ← List.replicate_succ'] at hbefore
    exact hbefore
  · refine level_memberOutlineLines hl _ true fun p hp => ?_
    obtain ⟨m, hm, houtline⟩ := exists_of_forall₂ ho.members hp
    exact level_texts (unmarkedMember h hu hm) (memberOutline_eq_ok_iff.mp houtline)
  · rw [hclosing]
    exact (nestsLines_closeBlock hl (depthOf e) _).append hlast

/-! ## Depth -/

/-- **A character opens a bracket, closes the innermost one, or is none.** -/
theorem nestChar_cases {c : Char} {s t : List Char} (h : nestChar s c = some t) :
    (isOpening c = true ∧ t = c :: s) ∨ (∃ o, opening? c = some o ∧ s = o :: t) ∨
      (isOpening c = false ∧ opening? c = none ∧ t = s) := by
  unfold nestChar at h
  cases hopening : isOpening c with
  | true =>
    rw [hopening, if_pos rfl] at h
    exact Or.inl ⟨rfl, (Option.some.inj h).symm⟩
  | false =>
    rw [hopening, if_neg (by simp)] at h
    cases hclosing : opening? c with
    | none =>
      rw [hclosing] at h
      exact Or.inr (Or.inr ⟨rfl, rfl, (Option.some.inj h).symm⟩)
    | some o =>
      rw [hclosing] at h
      cases s with
      | nil => exact absurd h (by simp)
      | cons top rest =>
        dsimp only at h
        split at h
        · rename_i htop
          exact Or.inr (Or.inl ⟨o, rfl, by rw [htop, Option.some.inj h]⟩)
        · exact absurd h (by simp)

theorem braceDepth_nestChar {c : Char} {s t : List Char} (h : nestChar s c = some t) :
    braceDepth t + (braces [.outside c]).count '\x7d'
      = braceDepth s + (braces [.outside c]).count '\x7b' := by
  rcases nestChar_cases h with ⟨hopening, rfl⟩ | ⟨o, hclosing, rfl⟩ | ⟨hopening, hclosing, rfl⟩
  · simp only [isOpening, Bool.or_eq_true, beq_iff_eq] at hopening
    rcases hopening with (rfl | rfl) | rfl
    · simp [braceDepth, braces]
    · simp [braceDepth, braces]
    · simp [braceDepth, braces]
  · unfold opening? at hclosing
    split_ifs at hclosing with hbrace hbracket hparenthesis
    · simp [braceDepth, braces, hbrace, ← Option.some.inj hclosing]
    · simp [braceDepth, braces, hbracket, ← Option.some.inj hclosing]
    · simp [braceDepth, braces, hparenthesis, ← Option.some.inj hclosing]
  · have hnone : braces [.outside c] = [] := by
      refine List.filterMap_eq_nil_iff.mpr fun p hp => ?_
      rw [List.mem_singleton.mp hp]
      refine if_neg ?_
      rintro (rfl | rfl)
      · exact absurd hopening (by decide)
      · exact absurd hclosing (by decide)
    rw [hnone]
    rfl

/-- **How deep the braces are is how many of them were opened and not closed.** -/
theorem braceDepth_nest {ps : List Piece} {s t : List Char} (h : nest s ps = some t) :
    braceDepth t + (braces ps).count '\x7d' = braceDepth s + (braces ps).count '\x7b' := by
  induction ps generalizing s with
  | nil =>
    cases h
    rfl
  | cons p ps ih =>
    cases p with
    | string text => exact ih h
    | outside c =>
      rw [nest] at h
      split at h
      · rename_i u hu
        have hstep := braceDepth_nestChar hu
        have hrest := ih h
        rw [← List.singleton_append, braces_append, List.count_append, List.count_append]
        omega
      · exact absurd h (by simp)

theorem braceCount_eq (ps : List Piece) : braceCount ps = (braces ps).count '\x7b' := by
  induction ps with
  | nil => rfl
  | cons p ps ih =>
    rw [← List.singleton_append, braces_append, List.count_append, ← ih]
    cases p with
    | string text => simp [braceCount, braces]
    | outside c =>
      by_cases hopen : c = '\x7b'
      · subst hopen
        simp [braceCount, braces, Nat.add_comm]
      · by_cases hclose : c = '\x7d'
        · simp [braceCount, braces, hclose]
        · simp [braceCount, braces, hopen, hclose]

/-! ## All of it -/

/-- How the brackets of a source text nest, that falls apart into some pieces. -/
structure BracketsNest (e : Enumeration) (s : Sections) (ps : List Piece) : Prop where
  /-- Each bracket is closed by its own, and in the end none is open. -/
  balanced : nest [] ps = some []
  /-- There is one pair of braces, or one within another. -/
  braces : braces ps = List.replicate (depthOf e + 1) '\x7b'
    ++ List.replicate (depthOf e + 1) '\x7d'
  count : braceCount ps = depthOf e + 1
  /-- Nowhere are more braces open. -/
  deepest : ∀ before after, ps = before ++ after →
    ∃ stack, nest [] before = some stack ∧ braceDepth stack ≤ depthOf e + 1
  /-- Where a line of a member begins all of them are open, and nothing else is. -/
  inner : ∀ above line below, s.members = above ++ line :: below →
    ∃ before after, ps = before ++ after ∧ pieces? (unlines (s.before ++ above)).toList
      = some before
      ∧ nest [] before = some (List.replicate (depthOf e + 1) '\x7b')

theorem bracketsNest_of_framed {e : Enumeration} {s : Sections} (h : Framed e s) {ps : List Piece}
    (hps : pieces? (unlines s.lines).toList = some ps) : BracketsNest e s ps := by
  obtain ⟨qs, hqs, hnest, hbraces⟩ := (h.before.append (.level h.members _)).append h.closing
  rw [← s.lines_eq_before] at hqs
  obtain rfl : qs = ps := Option.some.inj (hqs.pieces?_eq.symm.trans hps)
  rw [List.append_nil] at hbraces
  have hcount : (braces qs).count '\x7b' = depthOf e + 1 := by
    rw [hbraces, List.count_append, List.count_replicate_self,
      List.count_eq_zero.mpr fun hmem => absurd (List.eq_of_mem_replicate hmem) (by decide)]
  refine ⟨hnest, hbraces, (braceCount_eq qs).trans hcount, ?_, ?_⟩
  · rintro before after rfl
    rw [nest_append] at hnest
    obtain ⟨stack, hstack, -⟩ := Option.bind_eq_some_iff.mp hnest
    have hdepth := braceDepth_nest hstack
    rw [braces_append, List.count_append] at hcount
    exact ⟨stack, hstack, by simp only [braceDepth, List.count_nil] at hdepth ⊢; omega⟩
  · intro above line below hmembers
    have hlevel : ∀ x ∈ above, Level x.toList := fun x hx =>
      h.members x (hmembers ▸ List.mem_append_left _ hx)
    have hrest : ∀ x ∈ line :: below, Level x.toList := fun x hx =>
      h.members x (hmembers ▸ List.mem_append_right _ hx)
    obtain ⟨before, hbefore, hnestb, -⟩ := h.before.append (.level hlevel _)
    obtain ⟨after, hafter, -, -⟩ := NestsLines.append (.level hrest _) h.closing
    have hall := hbefore.append hafter
    rw [← String.toList_append, ← unlines_append, ← List.append_assoc, List.append_assoc s.before,
      ← hmembers, ← s.lines_eq_before] at hall
    exact ⟨before, after, Option.some.inj (hps.symm.trans hall.pieces?_eq),
      hbefore.pieces?_eq, hnestb⟩

/-- The last line closes a block. -/
theorem exists_closing (o : Outline) (l : Layout) (depth : Nat) :
    ∃ others last, (o.sections l depth).closing = others ++ [l.closeBlock last] := by
  cases hc : o.container with
  | none => exact ⟨[], depth, by simp [Outline.sections, hc]⟩
  | some c => exact ⟨[l.closeBlock depth], 0, by simp [Outline.sections, hc]⟩

theorem exists_toList_unlines_closeBlock (ls : List String) (l : Layout) (depth : Nat) :
    ∃ front, (unlines (ls ++ [l.closeBlock depth])).toList = front ++ ['\x7d', '\n'] := by
  refine ⟨(unlines ls).toList ++ (l.pad depth).toList, ?_⟩
  rw [unlines_append, String.toList_append, toList_unlines [_], List.flatMap_singleton,
    Layout.closeBlock, String.toList_append]
  simp [List.append_assoc]

/--
**Brackets nest.** Where no quote and no bracket is in the names and namespaces that an enumeration
refers to, and its members have whole numbers, the source text falls apart into characters and
string literals, and the brackets outside of literals nest: there is a pair of braces for the
namespace if there is one, and one in it for the enumeration, and each line of a member begins
within both. The text ends in one line feed.
-/
theorem render_nests {e : Enumeration} (h : Reachable e) (hu : UnmarkedAround e) {l : Layout}
    (hl : l.IsBlank) {text : String} (hr : render e l = .ok text) :
    ∃ s ps, lines e l = .ok s.lines ∧ HasSections e l s ∧ text = unlines s.lines ∧
      pieces? text.toList = some ps ∧ BracketsNest e s ps ∧
      ∃ front, text.toList = front ++ ['\x7d', '\n'] := by
  obtain ⟨o, houtline, rfl⟩ := render_eq_ok_iff.mp hr
  have ho := outline_eq_ok_iff.mp houtline
  have htext : o.text l = unlines (o.sections l (depthOf e)).lines := by
    rw [Outline.text, lines_sections ho]
  have hframed := framed_sections (sound_reachable h) hu ho hl
  obtain ⟨ps, hps, -, -⟩ :=
    (hframed.before.append (.level hframed.members _)).append hframed.closing
  rw [← Sections.lines_eq_before] at hps
  obtain ⟨others, last, hclosing⟩ := exists_closing o l (depthOf e)
  refine ⟨o.sections l (depthOf e), ps, lines_eq_ok_iff.mpr ⟨o, ho, lines_sections ho l⟩,
    hasSections_of_outline ho l, htext, htext ▸ hps.pieces?_eq,
    bracketsNest_of_framed hframed hps.pieces?_eq, ?_⟩
  rw [htext, Sections.lines_eq_before, hclosing, ← List.append_assoc]
  exact exists_toList_unlines_closeBlock _ l last

theorem unmarkedAround_signs : UnmarkedAround (signs.run signRequests).enumeration := by
  have hcontainer : (signs.run signRequests).enumeration.container = .text "Zoo" := by cbv
  refine ⟨by rw [hcontainer]; exact unmarked_of_all (by decide), fun a ha => ?_,
    quoteFreeAround_signs.numbers⟩
  rw [allAnnotations_signs] at ha
  simp only [signEntries, List.flatMap_cons, List.flatMap_nil, List.cons_append, List.nil_append,
    List.mem_cons, List.not_mem_nil, or_false] at ha
  rcases ha with rfl | rfl | rfl
  · exact ⟨unmarked_of_all (by decide), unmarked_of_all (by decide), by rintro n o ⟨⟩⟩
  · refine ⟨unmarked_of_all (by decide), unmarked_of_all (by decide), ?_⟩
    rintro n o ⟨⟩
    exact ⟨unmarked_of_all (by decide), unmarked_of_all (by decide)⟩
  · exact ⟨unmarked_of_all (by decide), unmarked_of_all (by decide), by rintro n o ⟨⟩⟩

/-- The text that would close its literal and the block around it closes nothing. -/
theorem render_nests_signs : ∃ s ps,
    Reachable (signs.run signRequests).enumeration ∧
    render (signs.run signRequests).enumeration ⟨.endOfLine, true, "\t"⟩ = .ok signText ∧
    pieces? signText.toList = some ps ∧
    BracketsNest (signs.run signRequests).enumeration s ps ∧
    braces ps = ['\x7b', '\x7b', '\x7d', '\x7d'] := by
  have hl : Layout.IsBlank ⟨.endOfLine, true, "\t"⟩ := isBlank_of_all (by decide)
  obtain ⟨s, ps, -, -, -, hps, hnest, -⟩ :=
    render_nests reachable_signs unmarkedAround_signs hl render_signs
  have hdepth : depthOf (signs.run signRequests).enumeration = 1 := by cbv
  have hbraces := hnest.braces
  rw [hdepth] at hbraces
  exact ⟨s, ps, reachable_signs, render_signs, hps, hnest, hbraces⟩

end EnumDecl.Source
