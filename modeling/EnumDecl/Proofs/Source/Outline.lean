import EnumDecl.Proofs.Results
import EnumDecl.Source.Outline

/-!
# Rendering is laying out an outline

The renderer spells and lays out line by line. Here the two are taken apart: it comes to the same,
in success and in failure, to spell everything first (`render_eq`). What the other files prove of a
source text they prove of an outline, where nothing fails, and of the spelling of one name, number
or argument.
-/

namespace EnumDecl.Source

theorem annotationText_eq (a : Annotation) :
    annotationText a = (annotationOutline a).map AnnotationOutline.text := by
  unfold annotationText annotationOutline
  cases argumentText a.argument with
  | error _ => rfl
  | ok argument =>
    cases nameOf a.type.name with
    | error _ => rfl
    | ok type => rfl

theorem declarationText_eq (noValue : Value) (m : Member) (annotations : List AnnotationOutline) :
    declarationText noValue m = (numberText noValue m).map fun number =>
      MemberOutline.declaration ⟨annotations, nameText m.name, number⟩ := by
  unfold declarationText numberText
  split
  · cases plainText m.value with
    | error _ => rfl
    | ok n => rfl
  · rfl

theorem memberTexts_eq (noValue : Value) (m : Member) :
    memberTexts noValue m = (memberOutline noValue m).map MemberOutline.texts := by
  unfold memberTexts memberOutline
  rw [show m.annotations.mapM annotationText = _ from
    (congrArg (m.annotations.mapM ·) (funext annotationText_eq)).trans (mapM_map _ _ _)]
  cases m.annotations.mapM annotationOutline with
  | error _ => rfl
  | ok annotations =>
    rw [declarationText_eq noValue m annotations]
    cases numberText noValue m with
    | error _ => rfl
    | ok number => rfl

theorem memberLines_eq (e : Enumeration) (l : Layout) (depth : Nat) (first : Bool)
    (ms : List Member) :
    memberLines e l depth first ms
      = (ms.mapM (memberOutline e.noValue)).map (memberOutlineLines l depth first) := by
  induction ms generalizing first with
  | nil => rfl
  | cons m ms ih =>
    rw [memberLines, memberTexts_eq, List.mapM_cons, ih]
    cases memberOutline e.noValue m with
    | error _ => rfl
    | ok o =>
      cases ms.mapM (memberOutline e.noValue) with
      | error _ => rfl
      | ok os => rfl

theorem importLines_eq (e : Enumeration) (l : Layout) (depth : Nat) :
    importLines e l depth = ((imports e).mapM plainText).map (importOutlineLines l depth) := by
  have hline : (fun v => do pure (l.pad depth ++ "using " ++ (← plainText v) ++ ";"))
      = fun v => (plainText v).map (l.pad depth ++ importText ·) := by
    funext v
    cases plainText v with
    | error _ => rfl
    | ok s => simp [importText, String.append_assoc, Except.map, bind, Except.bind, pure,
        Except.pure]
  unfold importLines
  rw [hline, mapM_map]
  cases (imports e).mapM plainText with
  | error _ => rfl
  | ok ss => cases ss <;> rfl

theorem enumerationLines_eq (e : Enumeration) (l : Layout) (depth : Nat) :
    enumerationLines e l depth = (e.members.mapM (memberOutline e.noValue)).map fun ms =>
      l.openBlock depth ("public enum " ++ nameText e.name)
        ++ memberOutlineLines l (depth + 1) true ms
        ++ [l.closeBlock depth] := by
  unfold enumerationLines
  rw [memberLines_eq]
  cases e.members.mapM (memberOutline e.noValue) with
  | error _ => rfl
  | ok ms => rfl

theorem lines_eq (e : Enumeration) (l : Layout) : lines e l = (outline e).map (·.lines l) := by
  unfold lines outline containerText
  simp only [importLines_eq, enumerationLines_eq]
  split
  · cases plainText e.container with
    | error _ => rfl
    | ok c =>
      cases (imports e).mapM plainText with
      | error _ => rfl
      | ok imported =>
        cases e.members.mapM (memberOutline e.noValue) with
        | error _ => rfl
        | ok ms => simp [Outline.lines, Outline.bodyLines, Except.map, bind, Except.bind, pure,
            Except.pure]
  · cases (imports e).mapM plainText with
    | error _ => rfl
    | ok imported =>
      cases e.members.mapM (memberOutline e.noValue) with
      | error _ => rfl
      | ok ms => rfl

/-- **Rendering spells an enumeration and lays the outline out.** -/
theorem render_eq (e : Enumeration) (l : Layout) : render e l = (outline e).map (·.text l) := by
  rw [render, lines_eq]
  cases outline e with
  | error _ => rfl
  | ok o => rfl

theorem render_eq_ok_iff {e : Enumeration} {l : Layout} {text : String} :
    render e l = .ok text ↔ ∃ o, outline e = .ok o ∧ o.text l = text := by
  rw [render_eq]
  cases outline e with
  | error _ => simp [Except.map]
  | ok o => simp [Except.map]

/-! ## What an outline holds -/

theorem numberText_eq_some_iff {noValue : Value} {m : Member} {n : String} :
    numberText noValue m = .ok (some n)
      ↔ m.value.eqv noValue = false ∧ plainText m.value = .ok n := by
  unfold numberText Member.hasExplicitValue
  cases m.value.eqv noValue with
  | true => simp
  | false => cases plainText m.value <;> simp [Except.map]

theorem numberText_eq_none_iff {noValue : Value} {m : Member} :
    numberText noValue m = .ok none ↔ m.value.eqv noValue = true := by
  unfold numberText Member.hasExplicitValue
  cases m.value.eqv noValue with
  | true => simp
  | false => cases plainText m.value <;> simp [Except.map]

theorem containerText_eq_some_iff {e : Enumeration} {c : String} :
    containerText e = .ok (some c)
      ↔ e.container.isTrue = true ∧ plainText e.container = .ok c := by
  unfold containerText
  cases e.container.isTrue with
  | false => simp
  | true => cases plainText e.container <;> simp [Except.map]

theorem containerText_eq_none_iff {e : Enumeration} :
    containerText e = .ok none ↔ e.container.isTrue = false := by
  unfold containerText
  cases e.container.isTrue with
  | false => simp
  | true => cases plainText e.container <;> simp [Except.map]

/-- What is imported is the namespace of some annotation's type. -/
theorem mem_importsAfter {as : List Annotation} {seen : List Value} {v : Value}
    (h : v ∈ importsAfter seen as) : v ∈ seen ∨ ∃ a ∈ as, a.type.container = v := by
  induction as generalizing seen with
  | nil => exact Or.inl h
  | cons a as ih =>
    have hrest : ∀ {seen : List Value}, v ∈ importsAfter seen as →
        v ∈ seen ∨ ∃ b ∈ a :: as, b.type.container = v := by
      intro seen hv
      exact (ih hv).imp_right fun ⟨b, hb, hbv⟩ => ⟨b, List.mem_cons_of_mem _ hb, hbv⟩
    rw [importsAfter] at h
    split at h
    · rcases hrest h with hv | hv
      · rcases List.mem_append.mp hv with hv | hv
        · exact Or.inl hv
        · exact Or.inr ⟨a, List.mem_cons_self, (List.mem_singleton.mp hv).symm⟩
      · exact Or.inr hv
    · exact hrest h

/-- An outline, part by part. -/
structure Outlines (e : Enumeration) (o : Outline) : Prop where
  container : containerText e = .ok o.container
  imports : List.Forall₂ (fun v s => plainText v = .ok s) (imports e) o.imports
  name : o.name = nameText e.name
  members : List.Forall₂ (fun m p => memberOutline e.noValue m = .ok p) e.members o.members

theorem outline_eq_ok_iff {e : Enumeration} {o : Outline} : outline e = .ok o ↔ Outlines e o := by
  unfold outline
  rw [bind_eq_ok_iff]
  constructor
  · rintro ⟨container, hc, h⟩
    obtain ⟨imported, hi, h⟩ := bind_eq_ok_iff.mp h
    obtain ⟨members, hm, h⟩ := bind_eq_ok_iff.mp h
    cases h
    exact ⟨hc, mapM_eq_ok_iff.mp hi, rfl, mapM_eq_ok_iff.mp hm⟩
  · intro h
    refine ⟨_, h.container, bind_eq_ok_iff.mpr ⟨_, mapM_eq_ok_iff.mpr h.imports,
      bind_eq_ok_iff.mpr ⟨_, mapM_eq_ok_iff.mpr h.members, ?_⟩⟩⟩
    rw [← h.name]
    rfl

/-- The outline of a member, part by part. -/
structure OutlinesMember (noValue : Value) (m : Member) (p : MemberOutline) : Prop where
  annotations : List.Forall₂ (fun a b => annotationOutline a = .ok b) m.annotations p.annotations
  name : p.name = nameText m.name
  number : numberText noValue m = .ok p.number

theorem memberOutline_eq_ok_iff {noValue : Value} {m : Member} {p : MemberOutline} :
    memberOutline noValue m = .ok p ↔ OutlinesMember noValue m p := by
  unfold memberOutline
  rw [bind_eq_ok_iff]
  constructor
  · rintro ⟨annotations, ha, h⟩
    obtain ⟨number, hn, h⟩ := bind_eq_ok_iff.mp h
    cases h
    exact ⟨mapM_eq_ok_iff.mp ha, rfl, hn⟩
  · intro h
    refine ⟨_, mapM_eq_ok_iff.mpr h.annotations, bind_eq_ok_iff.mpr ⟨_, h.number, ?_⟩⟩
    rw [← h.name]
    rfl

theorem annotationOutline_eq_ok_iff {a : Annotation} {b : AnnotationOutline} :
    annotationOutline a = .ok b ↔
      argumentText a.argument = .ok b.argument ∧ nameOf a.type.name = .ok b.type := by
  unfold annotationOutline
  rw [bind_eq_ok_iff]
  constructor
  · rintro ⟨argument, ha, h⟩
    obtain ⟨type, ht, h⟩ := bind_eq_ok_iff.mp h
    cases h
    exact ⟨ha, ht⟩
  · rintro ⟨ha, ht⟩
    exact ⟨_, ha, bind_eq_ok_iff.mpr ⟨_, ht, rfl⟩⟩

end EnumDecl.Source
