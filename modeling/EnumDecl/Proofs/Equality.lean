import EnumDecl.Value.Text

/-!
# Equality has no direction

A value is looked for among others by asking each of them whether it is the same. That the answer
does not depend on who is asked is not plain: a truth value is compared with a number by one rule
and a number with a truth value by another, and so for integers and floating point numbers.

For mappings and sets it is not even true without a word about their keys, because one of them is
compared with another by looking up each of its entries. What can be kept in a set holds neither,
and for such values equality is symmetric (`eqv_comm`, `same_comm`).
-/

namespace EnumDecl

theorem Binary64.eqv_comm (x y : Binary64) : x.eqv y = y.eqv x := by
  have key : ∀ s m t n, (Binary64.finite s m).eqv (.finite t n) = true →
      (Binary64.finite t n).eqv (.finite s m) = true := by
    intro s m t n h
    simp only [eqv, Bool.and_eq_true, Bool.or_eq_true, beq_iff_eq] at h ⊢
    obtain ⟨hu, h⟩ := h
    refine ⟨hu.symm, h.imp Eq.symm fun hz => ?_⟩
    simp only [Magnitude.isZero, Magnitude.units, beq_iff_eq] at hz hu ⊢
    rw [hz, Nat.zero_mul] at hu
    exact (Nat.mul_eq_zero.mp hu.symm).resolve_right (Nat.ne_of_gt (Nat.two_pow_pos _))
  cases x <;> cases y <;> try rfl
  · exact Bool.beq_comm
  · exact Bool.eq_iff_iff.mpr ⟨key _ _ _ _, key _ _ _ _⟩

theorem Calendar.DateTime.eqv_comm (a b : DateTime) : a.eqv b = b.eqv a := by
  unfold DateTime.eqv
  cases a.offset <;> cases b.offset <;> simp only [Bool.beq_comm]

namespace Value

/-! ## Marks are looked through -/

theorem bare_ne_marked (v : Value) (m : Mark) (w : Value) : v.bare ≠ .marked m w := by
  induction v using bare.induct with
  | case1 _ v ih => exact ih
  | case2 v h =>
    intro hb
    cases v with
    | marked k u => exact h k u rfl
    | _ => exact absurd hb (by simp [bare])

theorem bare_bare (v : Value) : v.bare.bare = v.bare := by
  cases h : v.bare with
  | marked m w => exact absurd h (bare_ne_marked v m w)
  | _ => rfl

theorem unhashable?_bare (v : Value) : v.bare.unhashable? = v.unhashable? := by
  induction v using bare.induct with
  | case1 _ v ih => rw [bare, ih, unhashable?]
  | case2 v h =>
    cases v with
    | marked k u => exact absurd rfl (h k u)
    | _ => rfl

theorem isHashable_bare (v : Value) : v.bare.isHashable = v.isHashable := by
  rw [isHashable, unhashable?_bare, isHashable]

theorem isTrue_bare (v : Value) : v.bare.isTrue = v.isTrue := by
  induction v using bare.induct with
  | case1 _ v ih => rw [bare, ih, isTrue]
  | case2 v h =>
    cases v with
    | marked k u => exact absurd rfl (h k u)
    | _ => rfl

theorem isWritable_bare (v : Value) : v.bare.isWritable = v.isWritable := by
  induction v using bare.induct with
  | case1 _ v ih => rw [bare, ih, isWritable]
  | case2 v h =>
    cases v with
    | marked k u => exact absurd rfl (h k u)
    | _ => rfl

theorem isLike_bare_left (x y : Value) : isLike x.bare y = isLike x y := by
  induction x using bare.induct with
  | case1 _ v ih => rw [bare, ih, isLike]
  | case2 v h =>
    cases v with
    | marked k u => exact absurd rfl (h k u)
    | _ => rfl

theorem isLike_bare_right (x y : Value) : isLike x y.bare = isLike x y := by
  induction x using bare.induct with
  | case1 _ v ih => rw [isLike, isLike, ih]
  | case2 v h =>
    cases v with
    | marked k u => exact absurd rfl (h k u)
    | _ => simp only [isLike, bare_bare]

/-! ## Sets -/

theorem unhashable?_of_isSet {v : Value} (h : v.isSet = true) : v.unhashable? = some .set := by
  induction v using bare.induct with
  | case1 m v ih => exact ih h
  | case2 v hv =>
    cases v with
    | set items => rfl
    | marked m w => exact absurd rfl (hv m w)
    | again m k =>
      obtain rfl : k = .set := eq_of_beq h
      rfl
    | _ => exact absurd h (by simp [isSet, kind])

theorem isSet_of_isHashable {v : Value} (h : v.isHashable = true) : v.isSet = false := by
  cases hs : v.isSet with
  | false => rfl
  | true => exact absurd h (by simp [isHashable, unhashable?_of_isSet hs])

/-! ## Both ways -/

theorem isOne_comm (a b : Value) : isOne a b = isOne b a := by
  unfold isOne
  rw [Bool.and_comm a.isNan, Bool.and_comm (!a.isHashable)]
  cases a.mark? <;> cases b.mark? <;> simp only [Bool.beq_comm]

/-- What can be kept in a set is one thing only where it is not-a-number. -/
theorem isNan_of_isOne {v w : Value} (hv : v.isHashable = true) (h : isOne v w = true) :
    v.isNan = true ∧ w.isNan = true := by
  rw [isOne, Bool.and_eq_true, hv] at h
  simpa using h.2

theorem eqvAtom_comm (x y : Value) : eqvAtom x y = eqvAtom y x := by
  cases x <;> cases y <;> simp only [eqvAtom, Binary64.eqv_comm, Calendar.DateTime.eqv_comm,
    Bool.beq_comm]

/-- A pair can be kept in a set when its parts can. -/
theorem isHashable_pair {a b : Value} (h : (Value.pair a b).isHashable = true) :
    a.isHashable = true ∧ b.isHashable = true := by
  simp only [isHashable, unhashable?, Option.isNone_iff_eq_none, Option.or_eq_none_iff] at h ⊢
  exact h

/-- What is no pair and can be kept in a set holds no other values. -/
theorem isLike_eq_eqvAtom {x : Value} (hx : x.isHashable = true) (hp : ∀ a b, x.bare ≠ .pair a b)
    (y : Value) : isLike x y = eqvAtom x.bare y.bare := by
  rw [← isLike_bare_left]
  rw [← isHashable_bare] at hx
  cases hb : x.bare with
  | marked m v => exact absurd hb (bare_ne_marked x m v)
  | pair a b => exact absurd hb (hp a b)
  | list xs => rw [hb] at hx; exact absurd hx (by simp [isHashable, unhashable?])
  | set xs => rw [hb] at hx; exact absurd hx (by simp [isHashable, unhashable?])
  | mapping es => rw [hb] at hx; exact absurd hx (by simp [isHashable, unhashable?])
  | again m k => simp [isLike, eqvAtom]
  | _ => simp only [isLike]

theorem bare_of_isSet {v : Value} (h : v.isSet = true) :
    (∃ items, v.bare = .set items) ∨ ∃ m, v.bare = .again m .set := by
  induction v using bare.induct with
  | case1 m v ih => exact ih h
  | case2 v hv =>
    cases v with
    | set items => exact Or.inl ⟨items, rfl⟩
    | marked m w => exact absurd rfl (hv m w)
    | again m k =>
      obtain rfl : k = .set := eq_of_beq h
      exact Or.inr ⟨m, rfl⟩
    | _ => exact absurd h (by simp [isSet, kind])

/-- Nothing that can be kept in a set is like a set. -/
theorem isLike_of_isSet {x y : Value} (hx : x.isHashable = true) (hy : y.isSet = true) :
    isLike x y = false := by
  by_cases hp : ∃ a b, x.bare = .pair a b
  · obtain ⟨a, b, hab⟩ := hp
    rw [← isLike_bare_left, hab, isLike]
    rcases bare_of_isSet hy with ⟨items, h⟩ | ⟨m, h⟩ <;> rw [h]
  · rw [isLike_eq_eqvAtom hx fun a b h => hp ⟨a, b, h⟩]
    rcases bare_of_isSet hy with ⟨items, h⟩ | ⟨m, h⟩ <;> rw [h] <;> cases x.bare <;> rfl

theorem sizeOf_bare_le (v : Value) : sizeOf v.bare ≤ sizeOf v := by
  induction v using bare.induct with
  | case1 m v ih =>
    rw [bare]
    simp only [marked.sizeOf_spec]
    omega
  | case2 v h =>
    cases v with
    | marked k u => exact absurd rfl (h k u)
    | _ => exact Nat.le_refl _

/-- A pair is like nothing that is no pair, whichever of the two is asked. -/
theorem isLike_pair_of_ne {x y a b : Value} (hx : x.bare = .pair a b) (hy : y.isHashable = true)
    (hne : ∀ c d, y.bare ≠ .pair c d) : isLike x y = false ∧ isLike y x = false := by
  constructor
  · rw [← isLike_bare_left, hx, isLike]
    split
    · rename_i c d h
      exact absurd h (hne c d)
    · rfl
  · rw [isLike_eq_eqvAtom hy hne, hx]
    cases y.bare <;> rfl

/-- **Values that can be kept in a set are alike both ways.** -/
theorem isLike_comm (x y : Value) (hx : x.isHashable = true) (hy : y.isHashable = true) :
    isLike x y = isLike y x := by
  by_cases hpx : ∃ a b, x.bare = .pair a b
  · obtain ⟨a, b, hab⟩ := hpx
    by_cases hpy : ∃ c d, y.bare = .pair c d
    · obtain ⟨c, d, hcd⟩ := hpy
      have hsize : 1 + sizeOf a + sizeOf b ≤ sizeOf x := by
        have := sizeOf_bare_le x
        rwa [hab, pair.sizeOf_spec] at this
      rw [← isHashable_bare, hab] at hx
      rw [← isHashable_bare, hcd] at hy
      obtain ⟨ha, hb⟩ := isHashable_pair hx
      obtain ⟨hc, hd⟩ := isHashable_pair hy
      rw [← isLike_bare_left x, ← isLike_bare_right _ y, ← isLike_bare_left y,
        ← isLike_bare_right _ x, hab, hcd]
      simp only [isLike, bare]
      rw [isOne_comm a c, isOne_comm b d, isLike_comm a c ha hc, isLike_comm b d hb hd]
    · have hne : ∀ c d, y.bare ≠ .pair c d := fun c d h => hpy ⟨c, d, h⟩
      rw [(isLike_pair_of_ne hab hy hne).1, (isLike_pair_of_ne hab hy hne).2]
  · have hnx : ∀ a b, x.bare ≠ .pair a b := fun a b h => hpx ⟨a, b, h⟩
    by_cases hpy : ∃ c d, y.bare = .pair c d
    · obtain ⟨c, d, hcd⟩ := hpy
      rw [(isLike_pair_of_ne hcd hx hnx).1, (isLike_pair_of_ne hcd hx hnx).2]
    · have hny : ∀ c d, y.bare ≠ .pair c d := fun c d h => hpy ⟨c, d, h⟩
      rw [isLike_eq_eqvAtom hx hnx, isLike_eq_eqvAtom hy hny, eqvAtom_comm]
termination_by sizeOf x
decreasing_by
  all_goals omega

theorem same_comm {x y : Value} (hx : x.isHashable = true) (hy : y.isHashable = true) :
    x.same y = y.same x := by
  rw [same, same, isOne_comm, isLike_comm x y hx hy]

@[simp] theorem same_text (a b : String) : (Value.text a).same (.text b) = (a == b) := by
  simp [same, isOne, mark?, isLike, bare, eqvAtom]

/-- What is not the same is not equal either. -/
theorem eqv_eq_false_of_same {x y : Value} (h : x.same y = false) : x.eqv y = false := by
  rw [same, Bool.or_eq_false_iff] at h
  rw [eqv, h.1, h.2]
  rfl

end Value

end EnumDecl
