import Mathlib
import EnumDecl.Dump
import EnumDecl.Proofs.Equality
import EnumDecl.Proofs.Results

/-!
# What a dump says

A dump *tells* an object if the fields of the object can be read off it, whatever the order of its
keys and whatever else it holds (`Argument.Tells` and its like for the other kinds of objects).
What is told is what is made of the dump. The dump that is written tells the object it was written
for, so each pair of functions loses nothing; and so does any other value that gives the same
answers to the same questions, such as the same dump with its keys in another order.
-/

namespace EnumDecl

/-! ## Fields -/

namespace Value

theorem lookup_object (key : String) (entries : List (String × Value)) :
    lookup (.text key) (entries.map fun e => (.text e.1, e.2)) = entries.lookup key := by
  induction entries with
  | nil => rfl
  | cons e es ih =>
    rw [List.map_cons, lookup, List.find?_cons, List.lookup, same_text]
    by_cases h : e.1 = key
    · rw [beq_iff_eq.mpr h, beq_iff_eq.mpr h.symm]
      rfl
    · rw [beq_eq_false_iff_ne.mpr h, beq_eq_false_iff_ne.mpr (Ne.symm h)]
      exact ih

/-- The field of a mapping with text keys. -/
theorem field_object_iff {entries : List (String × Value)} {key : String} {v : Value} :
    (object entries).field key = .ok v ↔ entries.lookup key = some v := by
  unfold field object
  dsimp only [bare]
  rw [lookup_object]
  cases entries.lookup key <;> simp

theorem field_object {entries : List (String × Value)} {key : String} {v : Value}
    (h : entries.lookup key = some v) : (object entries).field key = .ok v :=
  field_object_iff.mpr h

/-- A mapping with another value under a key; what is no mapping stays as it is. -/
def withField (d : Value) (key : String) (v : Value) : Value :=
  match d.bare with
  | .mapping entries => .mapping (insert (.text key) v entries)
  | _ => d

/-- A field that is there is read, whatever stood for it otherwise. -/
theorem fieldOr_of_field {d : Value} {key : String} {v : Value} (h : d.field key = .ok v)
    (default : Value) : d.fieldOr key default = .ok v := by
  unfold field at h
  unfold fieldOr
  split at h
  · split at h
    · rename_i hfound
      cases h
      simp [*]
    · exact absurd h (by simp)
  all_goals exact absurd h (by simp)

end Value

/-! ## Arguments, annotations and members -/

/-- The fields of an argument. -/
def Argument.Tells (d : Value) : Argument → Prop
  | .literal v => d.field "type" = .ok (.text "lit") ∧ d.field "value" = .ok v
  | .constant name owner =>
    d.field "type" = .ok (.text "const") ∧ d.field "name" = .ok name ∧ d.field "owner" = .ok owner
  | .bare _ => False

/-- The fields of a type reference. -/
def TypeReference.Tells (d : Value) (r : TypeReference) : Prop :=
  d.field "name" = .ok r.name ∧ d.field "namespace" = .ok r.container

/-- The fields of an annotation. -/
def Annotation.Tells (d : Value) (a : Annotation) : Prop :=
  ∃ kind argument, d.field "kind" = .ok kind ∧ d.field "argument" = .ok argument
    ∧ a.type.Tells kind ∧ a.argument.Tells argument

/-- The fields of a member. -/
def Member.Tells (d : Value) (m : Member) : Prop :=
  ∃ annotations, d.field "name" = .ok (.text m.name) ∧ d.field "value" = .ok m.value
    ∧ d.field "annotations" = .ok (.list annotations)
    ∧ List.Forall₂ Annotation.Tells annotations m.annotations

theorem Argument.ofValue_of_tells {d : Value} {a : Argument} (h : a.Tells d) :
    ofValue d = .ok a := by
  have hlit : (Value.text "lit").eqv (.text "lit") = true := by cbv
  have hconst : (Value.text "const").eqv (.text "lit") = false := by cbv
  have hconst' : (Value.text "const").eqv (.text "const") = true := by cbv
  cases a with
  | literal v =>
    obtain ⟨htype, hvalue⟩ := h
    simp [ofValue, Value.fieldOr_of_field htype, hvalue, hlit, bind, Except.bind, pure,
      Except.pure]
  | constant name owner =>
    obtain ⟨htype, hname, howner⟩ := h
    simp [ofValue, Value.fieldOr_of_field htype, Value.fieldOr_of_field howner, hname, hconst,
      hconst', bind, Except.bind, pure, Except.pure]
  | bare v => exact h.elim

theorem TypeReference.ofValue_of_tells {d : Value} {r : TypeReference} (h : r.Tells d) :
    ofValue d = .ok r := by
  unfold ofValue
  rw [h.1, Value.fieldOr_of_field h.2]
  rfl

theorem Annotation.ofValue_of_tells {d : Value} {a : Annotation} (h : a.Tells d) :
    ofValue d = .ok a := by
  obtain ⟨kind, argument, hkind, hargument, htype, harg⟩ := h
  unfold ofValue
  rw [hkind, hargument]
  simp only [bind, Except.bind]
  rw [TypeReference.ofValue_of_tells htype, Argument.ofValue_of_tells harg]
  rfl

/-- **What a dump tells of a member is what its entry asks for.** -/
theorem Member.ofValue_of_tells {d : Value} {m : Member} (h : m.Tells d) :
    Entry.ofValue d = .ok m.toEntry := by
  obtain ⟨annotations, hname, hvalue, hlist, hann⟩ := h
  have hmap : annotations.mapM Annotation.ofValue = .ok m.annotations :=
    mapM_eq_ok_iff.mpr (hann.imp fun _ _ => Annotation.ofValue_of_tells)
  unfold Entry.ofValue
  rw [hname, hvalue, Value.fieldOr_of_field hlist]
  simp only [bind, Except.bind, Value.items, Value.bare]
  rw [hmap]
  rfl

/-! ## What is written -/

theorem Argument.tells_toValue {a : Argument} {d : Value} (h : a.toValue = .ok d) : a.Tells d := by
  cases a with
  | literal v =>
    cases h
    exact ⟨Value.field_object (by simp [List.lookup]), Value.field_object (by simp [List.lookup])⟩
  | constant name owner =>
    cases h
    exact ⟨Value.field_object (by simp [List.lookup]), Value.field_object (by simp [List.lookup]),
      Value.field_object (by simp [List.lookup])⟩
  | bare v => exact absurd h (by simp [toValue])

theorem TypeReference.tells_toValue (r : TypeReference) : r.Tells r.toValue :=
  ⟨Value.field_object (by simp [List.lookup]), Value.field_object (by simp [List.lookup])⟩

theorem Annotation.tells_toValue {a : Annotation} {d : Value} (h : a.toValue = .ok d) :
    a.Tells d := by
  obtain ⟨argument, hargument, h⟩ := bind_eq_ok_iff.mp h
  cases h
  exact ⟨_, _, Value.field_object (by simp [List.lookup]),
    Value.field_object (by simp [List.lookup]),
    a.type.tells_toValue, Argument.tells_toValue hargument⟩

/-- **The dump of a member tells the member.** -/
theorem Member.tells_toValue {m : Member} {d : Value} (h : m.toValue = .ok d) : m.Tells d := by
  obtain ⟨annotations, hannotations, h⟩ := bind_eq_ok_iff.mp h
  cases h
  refine ⟨annotations, Value.field_object (by simp [List.lookup, toEntry]),
    Value.field_object (by simp [List.lookup, toEntry]),
    Value.field_object (by simp [List.lookup]), ?_⟩
  exact ((mapM_eq_ok_iff.mp hannotations).imp fun _ _ => Annotation.tells_toValue).flip

theorem Annotation.toValue_ok {a : Annotation} (h : a.argument.isProper = true) :
    ∃ d, a.toValue = .ok d := by
  unfold toValue
  cases harg : a.argument with
  | literal v => exact ⟨_, rfl⟩
  | constant name owner => exact ⟨_, rfl⟩
  | bare v =>
    rw [harg] at h
    exact absurd h (by simp [Argument.isProper])

/-- A member whose arguments are proper has a dump. -/
theorem Member.toValue_ok {m : Member} (h : ∀ a ∈ m.annotations, a.argument.isProper = true) :
    ∃ d, m.toValue = .ok d := by
  obtain ⟨annotations, hannotations⟩ := mapM_ok fun a ha => Annotation.toValue_ok (h a ha)
  exact ⟨_, bind_eq_ok_iff.mpr ⟨annotations, hannotations, rfl⟩⟩

/-! ## What is read -/

theorem Argument.isProper_ofValue {d : Value} {a : Argument} (h : ofValue d = .ok a) :
    a.isProper = true := by
  obtain ⟨form, -, h⟩ := bind_eq_ok_iff.mp h
  split at h
  · obtain ⟨v, -, h⟩ := bind_eq_ok_iff.mp h
    cases h
    rfl
  · split at h
    · obtain ⟨name, -, h⟩ := bind_eq_ok_iff.mp h
      obtain ⟨owner, -, h⟩ := bind_eq_ok_iff.mp h
      cases h
      rfl
    · exact absurd h (by simp [throw, throwThe, MonadExceptOf.throw])

theorem Annotation.isProper_ofValue {d : Value} {a : Annotation} (h : ofValue d = .ok a) :
    a.argument.isProper = true := by
  obtain ⟨kind, -, h⟩ := bind_eq_ok_iff.mp h
  obtain ⟨type, -, h⟩ := bind_eq_ok_iff.mp h
  obtain ⟨dump, -, h⟩ := bind_eq_ok_iff.mp h
  obtain ⟨argument, hargument, h⟩ := bind_eq_ok_iff.mp h
  cases h
  exact Argument.isProper_ofValue hargument

/-- Only proper arguments are read. -/
theorem Entry.isProper_ofValue {d : Value} {r : Entry} (h : ofValue d = .ok r) :
    ∀ a ∈ r.annotations, a.argument.isProper = true := by
  obtain ⟨name, -, h⟩ := bind_eq_ok_iff.mp h
  obtain ⟨value, -, h⟩ := bind_eq_ok_iff.mp h
  obtain ⟨list, -, h⟩ := bind_eq_ok_iff.mp h
  obtain ⟨dumps, -, h⟩ := bind_eq_ok_iff.mp h
  obtain ⟨annotations, hannotations, h⟩ := bind_eq_ok_iff.mp h
  cases h
  intro a ha
  obtain ⟨dump, -, hdump⟩ := exists_of_forall₂ (mapM_eq_ok_iff.mp hannotations) ha
  exact Annotation.isProper_ofValue hdump

end EnumDecl
