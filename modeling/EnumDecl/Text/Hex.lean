/-!
# Hexadecimal digits

Escapes write a code point with a fixed number of hexadecimal digits, most significant first.
-/

namespace EnumDecl.Text

/-- The lower-case hexadecimal digit of a number below sixteen. -/
def hexDigit (d : Nat) : Char :=
  if d < 10 then Char.ofNat (0x30 + d) else Char.ofNat (0x57 + d)

/-- The upper-case hexadecimal digit of a number below sixteen. -/
def upperHexDigit (d : Nat) : Char :=
  if d < 10 then Char.ofNat (0x30 + d) else Char.ofNat (0x37 + d)

/-- The last `width` digits of a number in base sixteen, each written by `digit`. -/
def hexWith (digit : Nat → Char) : (width : Nat) → Nat → List Char
  | 0, _ => []
  | width + 1, n => hexWith digit width (n / 16) ++ [digit (n % 16)]

/-- Lower-case hexadecimal with exactly `width` digits. -/
def hex (width n : Nat) : List Char := hexWith hexDigit width n

/-- Upper-case hexadecimal with exactly `width` digits. -/
def upperHex (width n : Nat) : List Char := hexWith upperHexDigit width n

/-- The number a hexadecimal digit of either case stands for. -/
def hexValue? (c : Char) : Option Nat :=
  if '0' ≤ c && c ≤ '9' then some (c.toNat - 0x30)
  else if 'a' ≤ c && c ≤ 'f' then some (c.toNat - 0x57)
  else if 'A' ≤ c && c ≤ 'F' then some (c.toNat - 0x37)
  else none

/-- The number a run of hexadecimal digits stands for, unless one of them is no digit. -/
def readHex? (cs : List Char) : Option Nat :=
  cs.foldl (fun acc c => do pure (16 * (← acc) + (← hexValue? c))) (some 0)

theorem length_hexWith (digit : Nat → Char) (width n : Nat) :
    (hexWith digit width n).length = width := by
  induction width generalizing n with
  | zero => rfl
  | succ w ih => simp [hexWith, ih]

theorem hexValue?_hexDigit : ∀ d, d < 16 → hexValue? (hexDigit d) = some d := by decide

theorem hexValue?_upperHexDigit : ∀ d, d < 16 → hexValue? (upperHexDigit d) = some d := by decide

theorem readHex?_snoc {cs : List Char} {n d : Nat} {c : Char} (hn : readHex? cs = some n)
    (hc : hexValue? c = some d) : readHex? (cs ++ [c]) = some (16 * n + d) := by
  unfold readHex? at hn ⊢
  rw [List.foldl_append, hn]
  simp [hc]

/-- So many digits say a number up to the power of sixteen of them. -/
theorem readHex?_hexWith {digit : Nat → Char} (hd : ∀ d, d < 16 → hexValue? (digit d) = some d)
    (width n : Nat) : readHex? (hexWith digit width n) = some (n % Nat.pow 16 width) := by
  induction width generalizing n with
  | zero => rw [show Nat.pow 16 0 = 1 from rfl, Nat.mod_one]; rfl
  | succ w ih =>
    have hsplit := readHex?_snoc (ih (n / 16)) (hd (n % 16) (Nat.mod_lt n (by omega)))
    have hvalue : 16 * (n / 16 % Nat.pow 16 w) + n % 16 = n % Nat.pow 16 (w + 1) := by
      rw [show Nat.pow 16 (w + 1) = 16 * Nat.pow 16 w from Nat.mul_comm _ _, Nat.mod_mul]
      omega
    rw [hvalue] at hsplit
    exact hsplit

end EnumDecl.Text
