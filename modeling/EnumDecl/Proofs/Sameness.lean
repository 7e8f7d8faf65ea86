import EnumDecl.Proofs.Equality

/-!
# What is the same as a third

Values that can be kept in a set are compared by what they stand for. A number stands for so many
units of the least positive one, of whatever kind it is, a time with an offset for an instant, and
everything else that holds no other values for itself (`eqvAtom_iff`). Not-a-number stands for
nothing and is the same only where it is one. So what is the same as a third is the same
(`same_trans`), although values of different kinds are.
-/

namespace EnumDecl

namespace Value

/-- What a number stands for. -/
inductive Quantity
  | /-- So many units of the least positive floating point number. -/
    finite (units : Int)
  | infinite (negative : Bool)

/-- What a time stands for. -/
inductive Moment
  | /-- A time without an offset. -/
    clock (t : Calendar.DateTime)
  | instant (microseconds : Int)

/-- What a value that holds no others stands for. -/
inductive Atom
  | null
  | quantity (q : Quantity)
  | text (s : String)
  | bytes (data : List UInt8)
  | date (d : Calendar.Date)
  | moment (m : Moment)

/-- What an integer stands for. -/
def quantityOfInt (i : Int) : Quantity := .finite (i * Binary64.unitsPerOne)

/-- The units that a finite number counts, with its sign. -/
def signedUnits (negative : Bool) (m : Binary64.Magnitude) : Int :=
  if negative then -(m.units : Int) else m.units

/-- What a floating point number stands for; not-a-number stands for nothing. -/
def quantity? : Binary64 → Option Quantity
  | .finite s m => some (.finite (signedUnits s m))
  | .infinity s => some (.infinite s)
  | .nan => none

/-- What a time stands for, which is an instant where an offset is known. -/
def momentOf (t : Calendar.DateTime) : Moment :=
  match t.offset with
  | none => .clock t
  | some o => .instant (t.microseconds - o * 1000000)

/-- What a value stands for, if it holds no others and is no not-a-number. -/
def atom? : Value → Option Atom
  | .null => some .null
  | .bool b => some (.quantity (quantityOfInt (ofBool b)))
  | .int i => some (.quantity (quantityOfInt i))
  | .float x => (quantity? x).map .quantity
  | .text s => some (.text s)
  | .bytes bs => some (.bytes bs)
  | .date d => some (.date d)
  | .dateTime t => some (.moment (momentOf t))
  | _ => none

/-- Values stand for the same thing. -/
def StandAlike (x y : Value) : Prop := atom? x = atom? y ∧ (atom? x).isSome = true

theorem StandAlike.symm {x y : Value} (h : StandAlike x y) : StandAlike y x :=
  ⟨h.1.symm, h.1 ▸ h.2⟩

theorem StandAlike.trans {x y z : Value} (h : StandAlike x y) (k : StandAlike y z) :
    StandAlike x z :=
  ⟨h.1.trans k.1, h.2⟩

/-! ## Numbers -/

theorem unitsPerOne_pos : 0 < Binary64.unitsPerOne := by decide +kernel

theorem isZero_iff (m : Binary64.Magnitude) : m.isZero = true ↔ m.units = 0 := by
  rw [Binary64.Magnitude.isZero, beq_iff_eq, Binary64.Magnitude.units, Nat.mul_eq_zero]
  have hpow : Nat.pow 2 m.scale ≠ 0 := Nat.pos_iff_ne_zero.mp (Nat.pow_pos (by decide))
  exact ⟨Or.inl, fun h => h.resolve_right hpow⟩

theorem finite_eqv_iff (s t : Bool) (m n : Binary64.Magnitude) :
    (Binary64.finite s m).eqv (.finite t n) = true ↔ signedUnits s m = signedUnits t n := by
  rw [Binary64.eqv, Bool.and_eq_true, beq_iff_eq, Bool.or_eq_true, beq_iff_eq, isZero_iff]
  unfold signedUnits
  cases s <;> cases t <;> simp <;> omega

theorem finite_eqvInt_iff (s : Bool) (m : Binary64.Magnitude) (i : Int) :
    (Binary64.finite s m).eqvInt i = true ↔ signedUnits s m = i * Binary64.unitsPerOne := by
  have hpos := unitsPerOne_pos
  rw [Binary64.eqvInt, Bool.and_eq_true, beq_iff_eq, Bool.or_eq_true, beq_iff_eq, isZero_iff]
  unfold signedUnits
  generalize Binary64.unitsPerOne = unit at hpos ⊢
  obtain ⟨n, rfl | rfl⟩ := i.eq_nat_or_neg
  · have hcast : (n : Int) * unit = (n * unit : Nat) := by push_cast; rfl
    rw [hcast, Int.natAbs_natCast]
    cases s <;> simp <;> omega
  · have hzero : n * unit = 0 ↔ n = 0 := by rw [Nat.mul_eq_zero]; omega
    have hcast : -(n : Int) * unit = -((n * unit : Nat) : Int) := by
      rw [Int.neg_mul]; push_cast; rfl
    rw [hcast, Int.natAbs_neg, Int.natAbs_natCast]
    cases s <;> simp <;> omega

theorem unitsPerOne_ne_zero : (Binary64.unitsPerOne : Int) ≠ 0 := by
  have := unitsPerOne_pos
  omega

theorem quantityOfInt_inj {i j : Int} : quantityOfInt i = quantityOfInt j ↔ i = j := by
  rw [quantityOfInt, quantityOfInt, Quantity.finite.injEq,
    Int.mul_eq_mul_right_iff unitsPerOne_ne_zero]

theorem float_eqv_iff (x y : Binary64) : x.eqv y = true ↔ StandAlike (.float x) (.float y) := by
  unfold StandAlike
  cases x <;> cases y <;> simp [atom?, quantity?, finite_eqv_iff] <;> simp [Binary64.eqv]

theorem float_eqvInt_iff (x : Binary64) (i : Int) :
    x.eqvInt i = true ↔ StandAlike (.float x) (.int i) := by
  cases x with
  | finite s m =>
    rw [finite_eqvInt_iff]
    constructor
    · intro h
      exact ⟨congrArg (fun units => some (Atom.quantity (.finite units))) h, rfl⟩
    · intro h
      exact Quantity.finite.inj (Atom.quantity.inj (Option.some.inj h.1))
  | infinity s =>
    refine iff_of_false (by simp [Binary64.eqvInt]) fun h => ?_
    exact Quantity.noConfusion (Atom.quantity.inj (Option.some.inj h.1))
  | nan =>
    refine iff_of_false (by simp [Binary64.eqvInt]) fun h => ?_
    exact absurd h.2 (by simp [atom?, quantity?])

/-! ## Values -/

theorem dateTime_eqv_iff (t u : Calendar.DateTime) :
    t.eqv u = true ↔ StandAlike (.dateTime t) (.dateTime u) := by
  unfold Calendar.DateTime.eqv StandAlike
  cases ht : t.offset <;> cases hu : u.offset <;> simp [atom?, momentOf, ht, hu]

theorem ofBool_inj {a b : Bool} : ofBool a = ofBool b ↔ a = b := by
  cases a <;> cases b <;> simp [ofBool]

/-- What stands for no quantity does not stand for what a float does. -/
theorem not_standAlike_float {x : Value} (hx : ∀ q, atom? x ≠ some (.quantity q)) (y : Binary64) :
    ¬ StandAlike x (.float y) := by
  rintro ⟨hsame, hsome⟩
  obtain ⟨k, hk⟩ := Option.isSome_iff_exists.mp hsome
  obtain ⟨q, -, rfl⟩ := Option.map_eq_some_iff.mp (hsame.symm.trans hk)
  exact hx q hk

/-- **Values that hold no others are equal when they stand for the same.** -/
theorem eqvAtom_iff (x y : Value) : eqvAtom x y = true ↔ StandAlike x y := by
  cases x with
  | float x =>
    cases y with
    | float y => exact float_eqv_iff x y
    | int i => exact float_eqvInt_iff x i
    | bool b => exact float_eqvInt_iff x (ofBool b)
    | _ => simp [StandAlike, eqvAtom, atom?]
  | dateTime t =>
    cases y with
    | dateTime u => exact dateTime_eqv_iff t u
    | float y => exact iff_of_false Bool.false_ne_true (not_standAlike_float (by simp [atom?]) y)
    | _ => simp [StandAlike, eqvAtom, atom?]
  | int i =>
    cases y with
    | float y => exact (float_eqvInt_iff y i).trans ⟨StandAlike.symm, StandAlike.symm⟩
    | _ => simp [StandAlike, eqvAtom, atom?, quantityOfInt_inj]
  | bool b =>
    cases y with
    | float y => exact (float_eqvInt_iff y (ofBool b)).trans ⟨StandAlike.symm, StandAlike.symm⟩
    | _ => simp [StandAlike, eqvAtom, atom?, quantityOfInt_inj, ofBool_inj]
  | _ =>
    cases y with
    | float y =>
      exact iff_of_false (by simp [eqvAtom]) (not_standAlike_float (by simp [atom?]) y)
    | _ => simp [StandAlike, eqvAtom, atom?]

/-! ## Collections -/

theorem bare_of_isNan {x : Value} (h : x.isNan = true) : x.bare = .float .nan := by
  induction x using isNan.induct with
  | case1 => rfl
  | case2 m v ih => exact ih h
  | case3 v h1 h2 => exact absurd h (by simp [isNan])

theorem isHashable_of_isNan {x : Value} (h : x.isNan = true) : x.isHashable = true := by
  rw [← isHashable_bare, bare_of_isNan h]
  rfl

/-- Not-a-number is like nothing. -/
theorem isLike_of_isNan {x : Value} (h : x.isNan = true) (y : Value) : isLike x y = false := by
  have hbare := bare_of_isNan h
  rw [isLike_eq_eqvAtom (isHashable_of_isNan h) (fun a b => by simp [hbare]), hbare,
    Bool.eq_false_iff, Ne, eqvAtom_iff]
  exact fun hlike => absurd hlike.2 (by simp [atom?, quantity?])

theorem isLike_pair_iff {x y a b : Value} (hx : x.bare = .pair a b) : isLike x y = true ↔
    ∃ c d, y.bare = .pair c d ∧ a.same c = true ∧ b.same d = true := by
  rw [← isLike_bare_left, hx, isLike]
  cases hy : y.bare with
  | pair c d =>
    rw [Bool.and_eq_true]
    constructor
    · exact fun h => ⟨c, d, rfl, h⟩
    · rintro ⟨_, _, ⟨rfl, rfl⟩, h⟩
      exact h
  | _ => simp

theorem sizeOf_lt_of_bare {x a b : Value} (h : x.bare = .pair a b) :
    sizeOf a < sizeOf x ∧ sizeOf b < sizeOf x := by
  have hsize := sizeOf_bare_le x
  rw [h, pair.sizeOf_spec] at hsize
  omega

/-- What is the same as a value that can be kept in a set can be kept in one too. -/
theorem isHashable_of_same {x y : Value} (hy : y.isHashable = true) (h : x.same y = true) :
    x.isHashable = true := by
  rw [same, Bool.or_eq_true] at h
  rcases h with hone | hlike
  · rw [isOne, Bool.and_eq_true, hy] at hone
    have hnan : x.isNan = true ∧ y.isNan = true := by simpa using hone.2
    exact isHashable_of_isNan hnan.1
  · rw [← isHashable_bare] at hy ⊢
    cases hx : x.bare with
    | pair a b =>
      obtain ⟨c, d, hcd, hac, hbd⟩ := (isLike_pair_iff hx).mp hlike
      obtain ⟨ha, hb⟩ := sizeOf_lt_of_bare hx
      rw [hcd] at hy
      obtain ⟨hc, hd⟩ := isHashable_pair hy
      have hha := isHashable_of_same hc hac
      have hhb := isHashable_of_same hd hbd
      simp_all [isHashable, unhashable?]
    | again m k =>
      rw [← isLike_bare_left, hx] at hlike
      exact absurd hlike (by simp [isLike])
    | list _ | set _ | mapping _ =>
      -- only a collection of the same kind is like one
      rw [← isLike_bare_left, hx, isLike] at hlike
      split at hlike
      · rename_i hbare
        rw [hbare] at hy
        exact absurd hy (by simp [isHashable, unhashable?])
      · contradiction
    | marked m v => exact absurd hx (bare_ne_marked x m v)
    | _ => rfl
termination_by sizeOf x
decreasing_by
  all_goals omega

theorem isOne_iff {x y : Value} (hx : x.isHashable = true) : isOne x y = true ↔
    (∃ m, x.mark? = some m ∧ y.mark? = some m) ∧ x.isNan = true ∧ y.isNan = true := by
  rw [isOne, Bool.and_eq_true, hx]
  refine and_congr ?_ (by simp)
  cases x.mark? with
  | none => simp
  | some m =>
    cases y.mark? with
    | none => simp
    | some n => simp [@eq_comm _ n m]

theorem isOne_trans {x y z : Value} (hx : x.isHashable = true) (hy : y.isHashable = true)
    (h : isOne x y = true) (k : isOne y z = true) : isOne x z = true := by
  obtain ⟨⟨m, hm, hm'⟩, hnan, -⟩ := (isOne_iff hx).mp h
  obtain ⟨⟨n, hn, hn'⟩, -, hnan'⟩ := (isOne_iff hy).mp k
  obtain rfl : m = n := Option.some.inj (hm'.symm.trans hn)
  exact (isOne_iff hx).mpr ⟨⟨m, hm, hn'⟩, hnan, hnan'⟩

/-- **What is the same as a third, which can be kept in a set, is the same.** -/
theorem same_trans {x y z : Value} (hz : z.isHashable = true) (h : x.same y = true)
    (k : y.same z = true) : x.same z = true := by
  have hy := isHashable_of_same hz k
  have hx := isHashable_of_same hy h
  rw [same, Bool.or_eq_true] at h k ⊢
  rcases h with hone | hlike
  · have hnan := isNan_of_isOne hx hone
    rcases k with kone | klike
    · exact Or.inl (isOne_trans hx hy hone kone)
    · exact absurd klike (by simp [isLike_of_isNan hnan.2])
  · rcases k with kone | klike
    · have hnan := isNan_of_isOne hy kone
      rw [isLike_comm x y hx hy] at hlike
      exact absurd hlike (by simp [isLike_of_isNan hnan.1])
    · right
      -- equality of leaves is that of what they stand for; only pairs call for the induction
      by_cases hpair : ∃ a b, x.bare = .pair a b
      · obtain ⟨a, b, hab⟩ := hpair
        obtain ⟨c, d, hcd, hac, hbd⟩ := (isLike_pair_iff hab).mp hlike
        obtain ⟨e, f, hef, hce, hdf⟩ := (isLike_pair_iff hcd).mp klike
        obtain ⟨ha, hb⟩ := sizeOf_lt_of_bare hab
        rw [← isHashable_bare, hef] at hz
        obtain ⟨he, hf⟩ := isHashable_pair hz
        exact (isLike_pair_iff hab).mpr ⟨e, f, hef, same_trans he hac hce, same_trans hf hbd hdf⟩
      · have hxp : ∀ a b, x.bare ≠ .pair a b := fun a b hab => hpair ⟨a, b, hab⟩
        have hyp : ∀ a b, y.bare ≠ .pair a b := fun a b hab => by
          have hfalse := (isLike_pair_of_ne hab hx hxp).2
          exact absurd hlike (by simp [hfalse])
        rw [isLike_eq_eqvAtom hx hxp, eqvAtom_iff] at hlike ⊢
        rw [isLike_eq_eqvAtom hy hyp, eqvAtom_iff] at klike
        exact hlike.trans klike
termination_by sizeOf x
decreasing_by
  all_goals omega

/-- Whether what a value stands for counts as true in a condition. -/
def Atom.isTrue : Atom → Bool
  | .null => false
  | .quantity (.finite units) => units != 0
  | .text s => !s.isEmpty
  | .bytes bs => !bs.isEmpty
  | _ => true

theorem isTrue_quantityOfInt (i : Int) : (Atom.quantity (quantityOfInt i)).isTrue = (i != 0) := by
  rw [quantityOfInt, Atom.isTrue, Bool.eq_iff_iff, bne_iff_ne, bne_iff_ne, Ne, Int.mul_eq_zero]
  exact not_congr (or_iff_left unitsPerOne_ne_zero)

theorem isTrue_of_atom? {x : Value} {k : Atom} (h : atom? x = some k) : x.isTrue = k.isTrue := by
  cases x with
  | int i =>
    cases h
    rw [isTrue_quantityOfInt]
    rfl
  | bool b =>
    cases h
    rw [isTrue_quantityOfInt]
    cases b <;> rfl
  | float x =>
    cases x with
    | finite s m =>
      cases h
      have hzero : m.isZero = false ↔ m.units ≠ 0 := by
        rw [Ne, ← isZero_iff, Bool.not_eq_true]
      rw [Bool.eq_iff_iff]
      cases s <;> simp [isTrue, Binary64.isZero, Atom.isTrue, signedUnits, hzero]
    | infinity s => cases h; rfl
    | nan => exact absurd h (by simp [atom?, quantity?])
  | list _ | pair _ _ | set _ | mapping _ | marked _ _ | again _ _ =>
    exact absurd h (by simp [atom?])
  | _ => cases h; rfl

/-- What is the same counts as true alike. -/
theorem isTrue_of_same {x y : Value} (hy : y.isHashable = true) (h : x.same y = true) :
    x.isTrue = y.isTrue := by
  have hx := isHashable_of_same hy h
  rw [same, Bool.or_eq_true] at h
  rw [← isTrue_bare x, ← isTrue_bare y]
  rcases h with hone | hlike
  · obtain ⟨-, hnan, hnan'⟩ := (isOne_iff hx).mp hone
    rw [bare_of_isNan hnan, bare_of_isNan hnan']
  · by_cases hpair : ∃ a b, x.bare = .pair a b
    · obtain ⟨a, b, hab⟩ := hpair
      obtain ⟨c, d, hcd, -, -⟩ := (isLike_pair_iff hab).mp hlike
      rw [hab, hcd, isTrue, isTrue]
    · rw [isLike_eq_eqvAtom hx fun a b hab => hpair ⟨a, b, hab⟩, eqvAtom_iff] at hlike
      obtain ⟨k, hk⟩ := Option.isSome_iff_exists.mp hlike.2
      rw [isTrue_of_atom? hk, isTrue_of_atom? (hlike.1.symm.trans hk)]

end Value

end EnumDecl
