import Mathlib
import EnumDecl.Decimal

/-!
# Decimal numerals are read as they are written

A number is the value of its digits, the digits of a number within the limit are readable, and a
run of digits may be filled up with zeros in front, which do not count. The first digit of a number
other than zero is not a zero, so that a number is never mistaken for one with leading zeros.
-/

namespace EnumDecl.Decimal

theorem value_eq (ds : List Char) : value ds = Nat.ofDigitChars 10 ds 0 := rfl

/-- **A number is the value of its digits.** -/
@[simp] theorem value_digits (n : Nat) : value (digits n) = n := Nat.ofDigitChars_ten_toDigits

theorem digits_ne_nil (n : Nat) : digits n ≠ [] := Nat.toDigits_ne_nil

theorem isDigit_of_mem_digits {n : Nat} {c : Char} (h : c ∈ digits n) : c.isDigit = true :=
  Nat.isDigit_of_mem_toDigits (by omega) (by omega) h

theorem length_digits_le_iff {n k : Nat} (h : 0 < k) : (digits n).length ≤ k ↔ n < 10 ^ k :=
  Nat.length_toDigits_le_iff (by omega) h

theorem length_digits_pos (n : Nat) : 0 < (digits n).length := Nat.length_toDigits_pos

/-- A number that may be written may be read. -/
theorem isReadable_digits {n : Nat} (h : n < 10 ^ digitLimit) : isReadable (digits n) = true :=
  decide_eq_true ((length_digits_le_iff (by decide)).mpr h)

theorem digits_inj {m n : Nat} (h : digits m = digits n) : m = n := by
  rw [← value_digits m, h, value_digits]

/-- Integers of one text are one: a sign is no digit. -/
theorem intDigits_inj {i j : Int} (h : intDigits i = intDigits j) : i = j := by
  have hsign : ∀ n ds, digits n ≠ '-' :: ds := fun n ds hn =>
    absurd (isDigit_of_mem_digits (hn ▸ List.mem_cons_self)) (by decide)
  unfold intDigits at h
  split at h
  · split at h
    · have habs := digits_inj (List.cons.inj h).2
      omega
    · exact absurd h.symm (hsign _ _)
  · split at h
    · exact absurd h (hsign _ _)
    · have habs := digits_inj h
      omega

theorem ofInt_inj {i j : Int} (h : ofInt i = ofInt j) : i = j :=
  intDigits_inj (String.ofList_inj.mp h)

theorem isWritable_iff {i : Int} : isWritable i = true ↔ i.natAbs < 10 ^ digitLimit := by
  unfold isWritable
  rw [decide_eq_true_iff, Nat.pow_eq]

/-- One digit is within the limit. -/
theorem isWritable_of_lt_ten {i : Int} (h : i.natAbs < 10) : isWritable i = true :=
  isWritable_iff.mpr (Nat.lt_of_lt_of_le h (Nat.le_self_pow (by decide) 10))

/-! ## Runs of digits -/

theorem value_append (a b : List Char) : value (a ++ b) = 10 ^ b.length * value a + value b := by
  rw [value_eq, Nat.ofDigitChars_append, Nat.ofDigitChars_eq_ofDigitChars_zero]
  rfl

theorem value_replicate_zero (n : Nat) : value (List.replicate n '0') = 0 := by
  rw [value_eq, Nat.ofDigitChars_replicate_zero, Nat.mul_zero]

theorem value_zeros_append (n : Nat) (ds : List Char) :
    value (List.replicate n '0' ++ ds) = value ds := by
  rw [value_append, value_replicate_zero, Nat.mul_zero, Nat.zero_add]

theorem value_append_zeros (ds : List Char) (n : Nat) :
    value (ds ++ List.replicate n '0') = value ds * 10 ^ n := by
  rw [value_append, value_replicate_zero, List.length_replicate, Nat.add_zero, Nat.mul_comm]

/-- A run of digits stands for a number below the power of ten of its length. -/
theorem value_lt {ds : List Char} (h : ∀ c ∈ ds, c.isDigit = true) :
    value ds < 10 ^ ds.length := by
  induction ds with
  | nil => decide
  | cons c ds ih =>
    have hc := h c (by simp)
    have hrest := ih fun d hd => h d (List.mem_cons_of_mem _ hd)
    have hcons : value (c :: ds) = 10 ^ ds.length * value [c] + value ds := value_append [c] ds
    have hle : value [c] ≤ 9 := by
      simp only [Char.isDigit, Bool.and_eq_true, decide_eq_true_eq, UInt32.le_iff_toNat_le] at hc
      show 10 * 0 + (c.toNat - 0x30) ≤ 9
      have h9 : '9'.val.toNat = 57 := rfl
      have hv : c.toNat = c.val.toNat := rfl
      omega
    have hmul : 10 ^ ds.length * value [c] ≤ 10 ^ ds.length * 9 := Nat.mul_le_mul_left _ hle
    rw [hcons, List.length_cons, Nat.pow_succ]
    omega

/-- The digits of a number other than zero do not begin with a zero. -/
theorem head?_digits_ne_zero {n : Nat} (h : 0 < n) : (digits n).head? ≠ some '0' := by
  intro hz
  obtain ⟨ds, hds⟩ : ∃ ds, digits n = '0' :: ds := by
    cases hd : digits n with
    | nil => exact absurd hd (digits_ne_nil n)
    | cons c ds =>
      rw [hd] at hz
      exact ⟨ds, by rw [Option.some.inj hz]⟩
  have hv : value ds = n := by
    rw [← value_digits n, hds]
    exact (value_zeros_append 1 ds).symm
  have hpos : 0 < ds.length := by
    cases ds with
    | nil => exact absurd hv (Nat.ne_of_lt h)
    | cons d ds => exact Nat.succ_pos _
  -- so `n` would have one digit fewer than it has
  have hlen : (digits n).length ≤ ds.length := by
    refine (length_digits_le_iff hpos).mpr ?_
    rw [← hv]
    exact value_lt fun c hc =>
      isDigit_of_mem_digits (n := n) (by rw [hds]; exact List.mem_cons_of_mem _ hc)
  rw [hds, List.length_cons] at hlen
  omega

end EnumDecl.Decimal
