/-!
# Binary floating point numbers

The 64-bit binary numbers as exact mathematical values. A finite magnitude is `m · 2^s` in units of
the least positive number, `2^-1074`, so both parts are natural numbers; the pair is canonical, so
two finite numbers are the same value exactly when they are the same pair. There is one
not-a-number.

Rounding takes an exact quotient to the nearest magnitude, a tie to the even significand, and
`roundUnits_canonical` shows that what it builds needs no check beyond the range of its scale.
A power of natural numbers is written `Nat.pow` here, which is the same whatever else is imported.
-/

namespace EnumDecl

namespace Binary64

/-- Units of the least positive number in one. -/
def unitsPerOne : Nat := Nat.pow 2 1074

/-- The greatest scale a finite magnitude has. -/
def maxScale : Nat := 2045

/-- A significand and scale in the one form a magnitude has. -/
structure IsCanonical (significand scale : Nat) : Prop where
  lt : significand < Nat.pow 2 53
  normal : scale = 0 ∨ Nat.pow 2 52 ≤ significand
  bounded : scale ≤ maxScale

instance (m s : Nat) : Decidable (IsCanonical m s) :=
  decidable_of_iff (m < Nat.pow 2 53 ∧ (s = 0 ∨ Nat.pow 2 52 ≤ m) ∧ s ≤ maxScale)
    ⟨fun h => ⟨h.1, h.2.1, h.2.2⟩, fun h => ⟨h.lt, h.normal, h.bounded⟩⟩

/-- A finite number without its sign. -/
structure Magnitude where
  significand : Nat
  scale : Nat
  canonical : IsCanonical significand scale
  deriving DecidableEq

namespace Magnitude

/-- The magnitude of zero. -/
def zero : Magnitude := ⟨0, 0, by decide⟩

/-- How many units of the least positive number a magnitude has. -/
def units (m : Magnitude) : Nat := m.significand * Nat.pow 2 m.scale

/-- Tells whether a magnitude is zero. -/
def isZero (m : Magnitude) : Bool := m.significand == 0

end Magnitude

/-! ## Rounding -/

/-- The quotient rounded to the nearest integer, a tie to the even one. -/
def roundHalfEven (num den : Nat) : Nat :=
  let q := num / den
  let r := num % den
  if 2 * r < den then q
  else if den < 2 * r then q + 1
  else if q % 2 = 0 then q else q + 1

/-- The scale at which a quotient of units has at most 53 significant bits. -/
def scaleFor (num den : Nat) : Nat := (num / den).log2 - 52

/-- The significand and scale nearest to `num / den` units, of any size. -/
def roundUnits (num den : Nat) : Nat × Nat :=
  let s := scaleFor num den
  let q := roundHalfEven num (den * Nat.pow 2 s)
  if q = Nat.pow 2 53 then (Nat.pow 2 52, s + 1) else (q, s)

theorem roundHalfEven_mem (num den : Nat) :
    roundHalfEven num den = num / den ∨ roundHalfEven num den = num / den + 1 := by
  unfold roundHalfEven
  dsimp only
  split
  · exact Or.inl rfl
  · split
    · exact Or.inr rfl
    · split
      · exact Or.inl rfl
      · exact Or.inr rfl

/-- The integer part at the chosen scale has at most 53 bits, and exactly 53 above scale zero. -/
theorem scaled_quotient_bounds (num den : Nat) :
    num / (den * Nat.pow 2 (scaleFor num den)) < Nat.pow 2 53 ∧
      (scaleFor num den = 0 ∨ Nat.pow 2 52 ≤ num / (den * Nat.pow 2 (scaleFor num den))) := by
  simp only [Nat.pow_eq]
  rw [← Nat.div_div_eq_div_mul]
  unfold scaleFor
  generalize num / den = n
  by_cases hn : n.log2 ≤ 52
  · have hs : n.log2 - 52 = 0 := by omega
    rw [hs]
    refine ⟨?_, Or.inl rfl⟩
    have h1 : n < 2 ^ (n.log2 + 1) := Nat.lt_log2_self
    have h2 : 2 ^ (n.log2 + 1) ≤ 2 ^ 53 := Nat.pow_le_pow_right (by decide) (by omega)
    simpa using Nat.lt_of_lt_of_le h1 h2
  · have hne : n ≠ 0 := by
      intro h
      subst h
      simp at hn
    have h1 : n < 2 ^ (n.log2 + 1) := Nat.lt_log2_self
    have h2 : 2 ^ n.log2 ≤ n := Nat.log2_self_le hne
    -- the leading bit of the quotient is shifted to the 53rd place
    have e1 : 2 ^ (n.log2 + 1) = 2 ^ 53 * 2 ^ (n.log2 - 52) := by
      rw [← Nat.pow_add]
      congr 1
      omega
    have e2 : 2 ^ n.log2 = 2 ^ 52 * 2 ^ (n.log2 - 52) := by
      rw [← Nat.pow_add]
      congr 1
      omega
    have hpos : 0 < 2 ^ (n.log2 - 52) := Nat.two_pow_pos _
    refine ⟨?_, Or.inr ?_⟩
    · rw [Nat.div_lt_iff_lt_mul hpos, ← e1]
      exact h1
    · rw [Nat.le_div_iff_mul_le hpos, ← e2]
      exact h2

/-- What rounding builds is canonical once its scale is in range. -/
theorem roundUnits_canonical {num den : Nat} (h : (roundUnits num den).2 ≤ maxScale) :
    IsCanonical (roundUnits num den).1 (roundUnits num den).2 := by
  obtain ⟨hlt, hnormal⟩ := scaled_quotient_bounds num den
  have hmem := roundHalfEven_mem num (den * Nat.pow 2 (scaleFor num den))
  unfold roundUnits at h ⊢
  dsimp only at h ⊢
  split at h
  · next heq =>
    rw [if_pos heq]
    exact ⟨show Nat.pow 2 52 < Nat.pow 2 53 by decide, Or.inr (Nat.le_refl _), h⟩
  · next hne =>
    rw [if_neg hne]
    refine ⟨?_, ?_, h⟩
    · show roundHalfEven num (den * Nat.pow 2 (scaleFor num den)) < Nat.pow 2 53
      omega
    · show scaleFor num den = 0
        ∨ Nat.pow 2 52 ≤ roundHalfEven num (den * Nat.pow 2 (scaleFor num den))
      omega

/-- The magnitude nearest to `num / den` units, unless it is past the greatest finite one. -/
def Magnitude.round? (num den : Nat) : Option Magnitude :=
  if h : (roundUnits num den).2 ≤ maxScale then
    some ⟨(roundUnits num den).1, (roundUnits num den).2, roundUnits_canonical h⟩
  else none

end Binary64

/-- A 64-bit binary floating point number. -/
inductive Binary64
  | nan
  | infinity (negative : Bool)
  | finite (negative : Bool) (magnitude : Binary64.Magnitude)
  deriving DecidableEq

namespace Binary64

/-- The number nearest to `num / den` units with the given sign; past the greatest finite number it
is infinite. -/
def ofUnits (negative : Bool) (num den : Nat) : Binary64 :=
  match Magnitude.round? num den with
  | some m => .finite negative m
  | none => .infinity negative

/-- Positive zero. -/
def zero : Binary64 := .finite false Magnitude.zero

/-- The nearest number to a natural number. -/
def ofNat (n : Nat) : Binary64 := ofUnits false (n * unitsPerOne) 1

/-- The same number with the other sign. -/
def neg : Binary64 → Binary64
  | .nan => .nan
  | .infinity s => .infinity (!s)
  | .finite s m => .finite (!s) m

/-- The product, rounded once. -/
def mul : Binary64 → Binary64 → Binary64
  | .nan, _ => .nan
  | _, .nan => .nan
  | .infinity s, .infinity t => .infinity (s != t)
  | .infinity s, .finite t m => if m.isZero then .nan else .infinity (s != t)
  | .finite s m, .infinity t => if m.isZero then .nan else .infinity (s != t)
  | .finite s m, .finite t n => ofUnits (s != t) (m.units * n.units) unitsPerOne

/-- The sum of two exact values, rounded once; two zeros of unlike sign make a positive zero. -/
def addFinite (s : Bool) (m : Magnitude) (t : Bool) (n : Magnitude) : Binary64 :=
  if s = t then ofUnits s (m.units + n.units) 1
  else if n.units < m.units then ofUnits s (m.units - n.units) 1
  else if m.units < n.units then ofUnits t (n.units - m.units) 1
  else zero

/-- The sum, rounded once. -/
def add : Binary64 → Binary64 → Binary64
  | .nan, _ => .nan
  | _, .nan => .nan
  | .infinity s, .infinity t => if s = t then .infinity s else .nan
  | .infinity s, .finite _ _ => .infinity s
  | .finite _ _, .infinity t => .infinity t
  | .finite s m, .finite t n => addFinite s m t n

/-! ## Comparison of values -/

/-- Equality of values: not-a-number equals nothing and the two zeros are equal. -/
def eqv : Binary64 → Binary64 → Bool
  | .infinity s, .infinity t => s == t
  | .finite s m, .finite t n => m.units == n.units && (s == t || m.isZero)
  | _, _ => false

/-- Exact equality with an integer. -/
def eqvInt : Binary64 → Int → Bool
  | .finite s m, i =>
    m.units == i.natAbs * unitsPerOne && (m.isZero || s == decide (i < 0))
  | _, _ => false

/-- Tells whether a number is zero. -/
def isZero : Binary64 → Bool
  | .finite _ m => m.isZero
  | _ => false

/-- Tells whether a number has a minus sign. -/
def isNegative : Binary64 → Bool
  | .nan => false
  | .infinity s => s
  | .finite s _ => s

/-- The greatest integer that is not above a finite number. -/
def floor? : Binary64 → Option Int
  | .finite s m => some ((if s then -(m.units : Int) else m.units) / unitsPerOne)
  | _ => none

end Binary64

end EnumDecl
