import EnumDecl.Proofs.Yaml.Carried
import EnumDecl.Yaml.Library

/-!
# What is asked of a YAML library

A dump is an object whose fields have certain names and hold scalars, objects of that kind, or
lists of them, and no object is far down in others. A library is *faithful* if it has a text for
each of these and reads the text as the same data, with one not-a-number for the whole text
(`Library.Faithful`). Nothing is asked about any other value, or about how a text looks.

The writer and the reader that there are here are faithful (`faithful_standard`).
-/

namespace EnumDecl.Yaml

/-- The names of the fields of a dump. -/
def fieldNames : List String :=
  ["name", "namespace", "no_value", "auto_resolve_conflicts", "members",
  "value", "annotations", "kind", "argument", "type", "owner"]

/-- An object with the fields of a dump, and what it is read as: an object with the same fields in
the same order, where `R` says what is read for what they hold. -/
structure RecordReturns (R : Value → Value → Prop) (v w : Value) (es fs : List (String × Value)) :
    Prop where
  written : v = .object es
  read : w = .object fs
  nonempty : es ≠ []
  distinct : (es.map (·.1)).Nodup
  names : es.map (·.1) ⊆ fieldNames
  values : List.Forall₂ (fun e f => f.1 = e.1 ∧ R e.2 f.2) es fs

/-- An object with the fields of a dump is read as another one. -/
def ObjectReturns (R : Value → Value → Prop) (v w : Value) : Prop :=
  ∃ es fs, RecordReturns R v w es fs

/-- What a field holds and what it is read as: a scalar, which is read as it is but for the mark of
a not-a-number, or an object or a list of objects, with less and less of them inside. -/
def FieldReturns : Nat → Value → Value → Prop
  | 0, v, w => IsScalar v ∧ w = v.reread
  | depth + 1, v, w => (IsScalar v ∧ w = v.reread) ∨ ObjectReturns (FieldReturns depth) v w ∨
    ∃ vs ws, v = .list vs ∧ w = .list ws ∧ List.Forall₂ (ObjectReturns (FieldReturns depth)) vs ws

/-- How many objects there are below that of an enumeration: a member, an annotation, and what that
is made of. -/
def dumpDepth : Nat := 3

/-- A dump and what it is read as. -/
def DumpReturns : Value → Value → Prop := ObjectReturns (FieldReturns dumpDepth)

/-- A library that gives back what it is given. -/
structure Library.Faithful (yaml : Library) : Prop where
  /-- What has the form of a dump has a text. -/
  written : ∀ v w, DumpReturns v w → ∃ text, yaml.write v = .ok text
  /-- The text is read as what it was written for. -/
  returned : ∀ v w text, DumpReturns v w → yaml.write v = .ok text → yaml.read text = .ok w

theorem fieldReturns_scalar {depth : Nat} {v : Value} (h : IsScalar v) :
    FieldReturns depth v v.reread := by
  cases depth with
  | zero => exact ⟨h, rfl⟩
  | succ depth => exact Or.inl ⟨h, rfl⟩

theorem fieldReturns_text (depth : Nat) (s : String) : FieldReturns depth (.text s) (.text s) :=
  fieldReturns_scalar (.text s)

theorem fieldReturns_object {depth : Nat} {v w : Value}
    (h : ObjectReturns (FieldReturns depth) v w) :
    FieldReturns (depth + 1) v w := Or.inr (Or.inl h)

theorem fieldReturns_list {depth : Nat} {vs ws : List Value}
    (h : List.Forall₂ (ObjectReturns (FieldReturns depth)) vs ws) :
    FieldReturns (depth + 1) (.list vs) (.list ws) := Or.inr (Or.inr ⟨vs, ws, rfl, rfl, h⟩)

/-- An object that is given field by field. -/
theorem objectReturns {R : Value → Value → Prop} {es fs : List (String × Value)} (hne : es ≠ [])
    (keys : (es.map (·.1)).Nodup) (names : es.map (·.1) ⊆ fieldNames)
    (h : List.Forall₂ (fun e f => f.1 = e.1 ∧ R e.2 f.2) es fs) :
    ObjectReturns R (.object es) (.object fs) :=
  ⟨es, fs, rfl, rfl, hne, keys, names, h⟩

/-! ## The library that there is here -/

theorem isFieldName_of_mem {k : String} (h : k ∈ fieldNames) : IsFieldName k.toList := by
  have hall : fieldNames.all (fun k => !k.toList.isEmpty &&
      k.toList.all (fun c => c.isAlphanum || c == '_') && decide (k.toList.length ≤ 100) &&
      resolve k.toList == .text) = true := rfl
  have hk := List.all_eq_true.mp hall k h
  simp only [Bool.and_eq_true, Bool.not_eq_true', List.isEmpty_eq_false_iff, List.all_eq_true,
    Bool.or_eq_true, beq_iff_eq, decide_eq_true_eq] at hk
  exact ⟨hk.1.1.1, hk.1.1.2, hk.1.2, hk.2⟩

theorem objectCarried {R : Value → Value → Prop} {bound : Nat} {v w : Value}
    (h : ObjectReturns R v w)
    (hr : ∀ {x y}, R x y → Carried bound x y) : ObjectCarried bound v w := by
  obtain ⟨es, fs, h⟩ := h
  exact ⟨es, fs, h.written, h.read, h.nonempty, h.distinct,
    fun _ he => isFieldName_of_mem (h.names (List.mem_map_of_mem he)),
    h.values.imp fun _ _ hef => ⟨hef.1, hr hef.2⟩⟩

/-- What a field holds is carried. Each object inside of it is two columns deeper. -/
theorem carried_field {depth bound : Nat} (hb : bound + 2 * depth + indentStep < lineWidth)
    {v w : Value} (h : FieldReturns depth v w) : Carried bound v w := by
  induction depth generalizing bound v w with
  | zero =>
    obtain ⟨hscalar, rfl⟩ := h
    exact carried_scalar (by omega) hscalar
  | succ depth ih =>
    have hinside : ∀ {x y}, FieldReturns depth x y → Carried (bound + 2) x y := ih (by omega)
    rcases h with ⟨hscalar, rfl⟩ | hobject | ⟨vs, ws, rfl, rfl, hlist⟩
    · exact carried_scalar (by omega) hscalar
    · exact carried_object (objectCarried hobject hinside)
    · exact carried_list (hlist.imp fun _ _ hvw => objectCarried hvw hinside)

/-- **The writer and the reader that there are here give back what they are given**, however a text
has to be written. -/
theorem faithful_standard : Library.standard.Faithful := by
  have hcarried : ∀ {v w}, DumpReturns v w → ∃ text, write v = .ok text ∧ Yaml.read text = .ok w :=
    fun h => read_write (objectCarried h (carried_field (by decide)))
  refine ⟨fun v w h => ?_, fun v w text h htext => ?_⟩
  · obtain ⟨text, hwrite, -⟩ := hcarried h
    exact ⟨text, hwrite⟩
  · obtain ⟨other, hwrite, hread⟩ := hcarried h
    obtain rfl : other = text := Except.ok.inj (hwrite.symm.trans htext)
    exact hread

end EnumDecl.Yaml
