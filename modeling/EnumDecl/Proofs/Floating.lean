import EnumDecl.Binary64.Shortest
import EnumDecl.Proofs.Decimal

/-!
# The shortest decimal of a number reads back as the number

A decimal is read by what it is worth and not by how it is spelled: a zero may be moved between its
digits and its exponent (`toMagnitude?_mul_ten`). With this the search for the shortest decimal is
right for a plain reason, since all that it tries is read back before it is taken. It remains that
it never comes back with nothing. Should no grid have a hit, the exact value is written, and that
reads back because nothing is left to be rounded and no finite magnitude is as far out as a decimal
has to be to be read without looking.
-/

namespace EnumDecl.Binary64

/-! ## Rounding -/

/-- A common factor does not change what is rounded. -/
theorem roundHalfEven_mul {c : Nat} (hc : 0 < c) (num den : Nat) :
    roundHalfEven (c * num) (c * den) = roundHalfEven num den := by
  unfold roundHalfEven
  dsimp only
  rw [Nat.mul_div_mul_left _ _ hc, Nat.mul_mod_mul_left]
  have hlow : 2 * (c * (num % den)) < c * den ↔ 2 * (num % den) < den := by
    rw [Nat.mul_left_comm]
    exact Nat.mul_lt_mul_left hc
  have hhigh : c * den < 2 * (c * (num % den)) ↔ den < 2 * (num % den) := by
    rw [Nat.mul_left_comm 2]
    exact Nat.mul_lt_mul_left hc
  simp only [hlow, hhigh]

theorem roundUnits_mul {c : Nat} (hc : 0 < c) (num den : Nat) :
    roundUnits (c * num) (c * den) = roundUnits num den := by
  have hs : scaleFor (c * num) (c * den) = scaleFor num den := by
    rw [scaleFor, Nat.mul_div_mul_left _ _ hc, scaleFor]
  unfold roundUnits
  dsimp only
  rw [hs, Nat.mul_assoc, roundHalfEven_mul hc]

theorem Magnitude.round?_mul {c : Nat} (hc : 0 < c) (num den : Nat) :
    Magnitude.round? (c * num) (c * den) = Magnitude.round? num den := by
  unfold Magnitude.round?
  simp only [roundUnits_mul hc]

/-- A whole number of units that a magnitude has is rounded to it. -/
theorem Magnitude.round?_units (m : Magnitude) : Magnitude.round? m.units 1 = some m := by
  obtain ⟨significand, scale, hm⟩ := m
  have hbits : roundUnits (significand * 2 ^ scale) 1 = (significand, scale) := by
    have hpos : 0 < 2 ^ scale := Nat.two_pow_pos scale
    have hscale : scaleFor (significand * 2 ^ scale) 1 = scale := by
      unfold scaleFor
      rw [Nat.div_one]
      -- a magnitude is as small as the smallest scale allows, or its significand is full
      rcases hm.normal with rfl | hlow
      · rw [Nat.pow_zero, Nat.mul_one]
        by_cases hz : significand = 0
        · subst hz
          decide
        · have := (Nat.log2_lt hz).mpr hm.lt
          omega
      · have hz : significand ≠ 0 := by
          have : 0 < Nat.pow 2 52 := Nat.two_pow_pos 52
          omega
        have hbits : (significand * 2 ^ scale).log2 = 52 + scale := by
          have hne : significand * 2 ^ scale ≠ 0 := Nat.mul_ne_zero hz (Nat.ne_of_gt hpos)
          rw [Nat.log2_eq_iff hne, Nat.pow_add, show 52 + scale + 1 = 53 + scale by omega,
            Nat.pow_add]
          exact ⟨Nat.mul_le_mul_right _ hlow, Nat.mul_lt_mul_of_pos_right hm.lt hpos⟩
        rw [hbits]
        omega
    have hround : roundHalfEven (significand * 2 ^ scale) (1 * 2 ^ scale) = significand := by
      unfold roundHalfEven
      dsimp only
      rw [Nat.one_mul, Nat.mul_mod_left, Nat.mul_div_cancel _ hpos, if_pos (by omega)]
    unfold roundUnits
    simp only [Nat.pow_eq]
    rw [hscale, hround, if_neg (Nat.ne_of_lt hm.lt)]
  unfold Magnitude.round? Magnitude.units
  simp only [Nat.pow_eq, hbits]
  rw [dif_pos hm.bounded]

theorem Magnitude.round?_mul_units (m : Magnitude) {c : Nat} (hc : 0 < c) :
    Magnitude.round? (c * m.units) c = some m := by
  have hround := round?_mul hc m.units 1
  rw [Nat.mul_one] at hround
  rw [hround, round?_units]

namespace DecimalForm

/-! ## What a decimal is worth -/

theorem digitCount_mul_ten {n : Nat} (h : 0 < n) : digitCount (n * 10) = digitCount n + 1 := by
  have happend := Nat.toDigits_append_toDigits (d := 0) (by omega : 1 < 10) h (by omega)
  unfold digitCount Decimal.digits
  rw [Nat.mul_comm, ← Nat.add_zero (10 * n), ← happend, List.length_append]
  rfl

/-- A zero at the end of the digits counts as much as one more in the exponent. -/
theorem toMagnitude?_mul_ten (n : Nat) (e : Int) :
    toMagnitude? ⟨n * 10, e⟩ = toMagnitude? ⟨n, e + 1⟩ := by
  rcases Nat.eq_zero_or_pos n with rfl | hn
  · rfl
  · have hplace : (digitCount (n * 10) : Int) + e = digitCount n + (e + 1) := by
      rw [digitCount_mul_ten hn]
      omega
    have hround : Magnitude.round? (toQuotient ⟨n * 10, e⟩).1 (toQuotient ⟨n * 10, e⟩).2
        = Magnitude.round? (toQuotient ⟨n, e + 1⟩).1 (toQuotient ⟨n, e + 1⟩).2 := by
      unfold toQuotient
      simp only [Nat.pow_eq]
      by_cases he : 0 ≤ e
      · -- both are whole
        have hpow : n * 10 * 10 ^ e.toNat = n * 10 ^ (e + 1).toNat := by
          rw [show (e + 1).toNat = e.toNat + 1 by omega, Nat.pow_succ, Nat.mul_assoc,
            Nat.mul_comm 10]
        rw [if_pos he, if_pos (by omega), hpow]
      · have hpow : 10 ^ (-e).toNat = 10 * 10 ^ (-(e + 1)).toNat := by
          rw [show (-e).toNat = (-(e + 1)).toNat + 1 by omega, Nat.pow_succ, Nat.mul_comm]
        have hnum : n * 10 * unitsPerOne = 10 * (n * unitsPerOne) := by
          rw [Nat.mul_comm n 10, Nat.mul_assoc]
        rw [if_neg he, hnum, hpow, Magnitude.round?_mul (by omega)]
        by_cases he' : 0 ≤ e + 1
        · -- the tenth part of a whole number, and the whole number
          rw [if_pos he', show (-(e + 1)).toNat = 0 by omega, show (e + 1).toNat = 0 by omega,
            Nat.pow_zero, Nat.mul_one]
        · rw [if_neg he']
    have hz : (n * 10 = 0) = (n = 0) := propext (by omega)
    unfold toMagnitude?
    dsimp only
    rw [hplace, hround]
    simp only [hz]

theorem toMagnitude?_of_digits_eq_zero {d : DecimalForm} (h : d.digits = 0) :
    d.toMagnitude? = some Magnitude.zero := by
  unfold toMagnitude?
  rw [if_pos (by simp [h])]

theorem toMagnitude?_mul_pow (n k : Nat) (e : Int) :
    toMagnitude? ⟨n * 10 ^ k, e⟩ = toMagnitude? ⟨n, e + k⟩ := by
  induction k generalizing e with
  | zero => rw [Nat.pow_zero, Nat.mul_one, Int.natCast_zero, Int.add_zero]
  | succ k ih =>
    rw [Nat.pow_succ, ← Nat.mul_assoc, toMagnitude?_mul_ten, ih]
    congr 2
    omega

theorem toMagnitude?_stripZeros (fuel : Nat) (d : DecimalForm) :
    (d.stripZeros fuel).toMagnitude? = d.toMagnitude? := by
  induction fuel generalizing d with
  | zero => rfl
  | succ fuel ih =>
    unfold stripZeros
    split
    · rename_i h
      simp only [Bool.and_eq_true, decide_eq_true_eq] at h
      have hd : d = ⟨d.digits / 10 * 10, d.exponent⟩ := by
        rw [Nat.div_mul_cancel (Nat.dvd_of_mod_eq_zero h.1)]
      rw [ih, ← toMagnitude?_mul_ten, ← hd]
    · rfl

/-! ## The exact decimal -/

theorem units_pos {m : Magnitude} (h : m.isZero = false) : 0 < m.units := by
  have hs : m.significand ≠ 0 := by simpa [Magnitude.isZero] using h
  exact Nat.mul_pos (Nat.pos_of_ne_zero hs) (Nat.two_pow_pos _)

theorem units_lt (m : Magnitude) : m.units < 2 ^ (53 + maxScale) := by
  calc m.units < 2 ^ 53 * 2 ^ m.scale :=
        Nat.mul_lt_mul_of_lt_of_le m.canonical.lt (Nat.le_refl _) (Nat.two_pow_pos _)
    _ = 2 ^ (53 + m.scale) := (Nat.pow_add 2 53 m.scale).symm
    _ ≤ 2 ^ (53 + maxScale) :=
        Nat.pow_le_pow_right (by omega) (Nat.add_le_add_left m.canonical.bounded 53)

theorem exact_eq (m : Magnitude) : exact m = ⟨m.units * Nat.pow 5 1074, -1074⟩ := rfl

theorem exact_bounds : 0 < Nat.pow 5 1074 ∧ 10 ^ 674 ≤ Nat.pow 5 1074
    ∧ 2 ^ (53 + maxScale) * Nat.pow 5 1074 ≤ 10 ^ 1400 := by
  decide +kernel

/-- The first digit is neither too far to the left nor too far to the right to be read. -/
theorem digitCount_exact {m : Magnitude} (h : m.isZero = false) :
    674 < digitCount (exact m).digits ∧ digitCount (exact m).digits ≤ 1400 := by
  rw [exact_eq]
  obtain ⟨hfive, hfew, hmany⟩ := exact_bounds
  constructor
  · refine Nat.lt_of_not_le fun hle => ?_
    have hlt := (Decimal.length_digits_le_iff (by omega)).mp hle
    have hone : Nat.pow 5 1074 ≤ m.units * Nat.pow 5 1074 := Nat.le_mul_of_pos_left _ (units_pos h)
    exact absurd (Nat.le_trans hfew hone) (Nat.not_le_of_lt hlt)
  · refine (Decimal.length_digits_le_iff (by omega)).mpr ?_
    calc m.units * Nat.pow 5 1074 < 2 ^ (53 + maxScale) * Nat.pow 5 1074 :=
          Nat.mul_lt_mul_of_pos_right (units_lt m) hfive
      _ ≤ 10 ^ 1400 := hmany

/-- Nothing of an exact value is rounded. -/
theorem round?_exact (m : Magnitude) :
    Magnitude.round? (toQuotient (exact m)).1 (toQuotient (exact m)).2 = some m := by
  have hten : Nat.pow 10 1074 = Nat.pow 5 1074 * unitsPerOne := by decide +kernel
  have hpos : 0 < Nat.pow 10 1074 := by decide +kernel
  have hexponent : (-(-1074 : Int)).toNat = 1074 := rfl
  rw [exact_eq]
  unfold toQuotient
  dsimp only
  rw [if_neg (by omega), hexponent]
  -- from here on the size of the exponent is of no use
  generalize (1074 : Nat) = k at hten hpos
  have hnum : m.units * Nat.pow 5 k * unitsPerOne = Nat.pow 10 k * m.units := by
    rw [hten, Nat.mul_assoc, Nat.mul_comm]
  rw [hnum]
  exact Magnitude.round?_mul_units m hpos

/-- The exact value of a magnitude, however long it is, reads back. -/
theorem toMagnitude?_exact {m : Magnitude} (h : m.isZero = false) :
    (exact m).toMagnitude? = some m := by
  obtain ⟨hleast, hmost⟩ := digitCount_exact h
  have hnonzero : (exact m).digits ≠ 0 := by
    intro hz
    rw [hz] at hleast
    exact absurd hleast (by decide)
  have hexponent : (exact m).exponent = -1074 := rfl
  unfold toMagnitude? leastPlace greatestPlace
  dsimp only
  rw [round?_exact, hexponent,
    if_neg (by simp only [Bool.or_eq_true, decide_eq_true_eq, not_or]; omega), if_neg (by omega)]

end DecimalForm

/-! ## The shortest decimal -/

theorem Magnitude.readsBack_iff {m : Magnitude} {d : DecimalForm} :
    m.readsBack d = true ↔ d.toMagnitude? = some m := by
  unfold readsBack
  exact beq_iff_eq

/-- What is chosen is one of the two neighbours, and one that will do. -/
theorem Magnitude.choose_eq_some {below above nearest d : DecimalForm} {p q : Bool}
    (h : choose below above nearest p q = some d) (hn : nearest = below ∨ nearest = above) :
    (d = below ∧ p = true) ∨ (d = above ∧ q = true) := by
  cases p with
  | true =>
    cases q with
    | true =>
      have hd : d = nearest := (Option.some.inj h).symm
      rw [hd]
      exact hn.imp (fun hb => ⟨hb, rfl⟩) (fun ha => ⟨ha, rfl⟩)
    | false => exact Or.inl ⟨(Option.some.inj h).symm, rfl⟩
  | false =>
    cases q with
    | true => exact Or.inr ⟨(Option.some.inj h).symm, rfl⟩
    | false => exact absurd h (by simp [choose])

theorem Magnitude.toMagnitude?_withDigits? {m : Magnitude} {n : Nat} {d : DecimalForm}
    (h : m.withDigits? n = some d) : d.toMagnitude? = some m := by
  rw [← readsBack_iff]
  have hnear := roundHalfEven_mem (m.onGrid (m.place - n)).1 (m.onGrid (m.place - n)).2
  rcases choose_eq_some h
    (hnear.imp (congrArg (DecimalForm.mk · _)) (congrArg (DecimalForm.mk · _)))
    with ⟨rfl, hd⟩ | ⟨rfl, hd⟩
  · exact hd
  · exact hd

/-- **The shortest decimal reads back.** -/
theorem Magnitude.toMagnitude?_shortest {m : Magnitude} (h : m.isZero = false) :
    m.shortest.toMagnitude? = some m := by
  unfold shortest
  cases hd : m.fewestDigits? with
  | some d =>
    obtain ⟨n, -, hn⟩ := List.exists_of_findSome?_eq_some hd
    rw [Option.map_some, Option.getD_some, DecimalForm.toMagnitude?_stripZeros,
      toMagnitude?_withDigits? hn]
  | none => rw [Option.map_none, Option.getD_none, DecimalForm.toMagnitude?_exact h]

theorem Magnitude.eq_zero_of_isZero {m : Magnitude} (h : m.isZero = true) :
    m = Magnitude.zero := by
  obtain ⟨significand, scale, hm⟩ := m
  obtain rfl : significand = 0 := by simpa [isZero] using h
  obtain rfl : scale = 0 :=
    hm.normal.resolve_right (by have : 0 < Nat.pow 2 52 := Nat.two_pow_pos 52; omega)
  rfl

/-- The shortest decimal of a number other than zero has digits. -/
theorem Magnitude.digits_shortest_pos {m : Magnitude} (h : m.isZero = false) :
    0 < m.shortest.digits := by
  refine Nat.pos_of_ne_zero fun hz => ?_
  have hread := toMagnitude?_shortest h
  rw [DecimalForm.toMagnitude?_of_digits_eq_zero hz] at hread
  rw [← Option.some.inj hread] at h
  exact absurd h (by decide)

end EnumDecl.Binary64
