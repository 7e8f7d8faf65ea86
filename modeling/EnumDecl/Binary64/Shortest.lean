import EnumDecl.Binary64.Basic
import EnumDecl.Decimal

/-!
# Decimal forms of binary floating point numbers

Reading rounds an exact decimal `d · 10^p` once. Writing looks for the fewest significant digits
that read back as the same magnitude: for one digit, two digits and so on, the two neighbours of
the value on the grid of that many digits are read back, and the first grid with a hit is taken, of
two hits the nearer one and of two equally near the even one. What is written therefore reads back
by construction.
-/

namespace EnumDecl.Binary64

/-- A decimal number `digits · 10^exponent`, without sign. -/
structure DecimalForm where
  digits : Nat
  exponent : Int
  deriving DecidableEq

namespace DecimalForm

/-- How many decimal digits a number has. -/
def digitCount (n : Nat) : Nat := (Decimal.digits n).length

/-- A decimal whose first digit stands past this place is above every finite magnitude. -/
def greatestPlace : Int := 400

/-- A decimal whose first digit stands before this place rounds to zero. -/
def leastPlace : Int := -400

/-- The number of units in a decimal as a quotient of natural numbers. -/
def toQuotient (d : DecimalForm) : Nat × Nat :=
  if 0 ≤ d.exponent then (d.digits * Nat.pow 10 d.exponent.toNat * unitsPerOne, 1)
  else (d.digits * unitsPerOne, Nat.pow 10 (-d.exponent).toNat)

/-- The magnitude nearest to a decimal, unless it is past the greatest finite one. -/
def toMagnitude? (d : DecimalForm) : Option Magnitude :=
  let place := digitCount d.digits + d.exponent
  -- far out of range the answer is known, and the powers of ten need not be built
  if d.digits = 0 || place < leastPlace then some Magnitude.zero
  else if greatestPlace < place then none
  else Magnitude.round? d.toQuotient.1 d.toQuotient.2

/-- The number nearest to a decimal with the given sign. -/
def toBinary64 (negative : Bool) (d : DecimalForm) : Binary64 :=
  match d.toMagnitude? with
  | some m => .finite negative m
  | none => .infinity negative

/-- Leaves out the zeros at the end of the digits; the fuel is a bound on their number. -/
def stripZeros : (fuel : Nat) → DecimalForm → DecimalForm
  | 0, d => d
  | fuel + 1, d =>
    if d.digits % 10 = 0 && d.digits ≠ 0 then stripZeros fuel ⟨d.digits / 10, d.exponent + 1⟩
    else d

/-- The exact decimal value of a magnitude: five to the number of binary places stands in for
them. -/
def exact (m : Magnitude) : DecimalForm :=
  ⟨m.significand * Nat.pow 2 m.scale * Nat.pow 5 1074, -1074⟩

end DecimalForm

namespace Magnitude

/--
The place of the first digit: the magnitude lies in the interval from `10^(place - 1)` up to
`10^place`. Multiplying by `10^400` first keeps the integer part of every positive magnitude
positive.
-/
def place (m : Magnitude) : Int :=
  (DecimalForm.digitCount (m.units * Nat.pow 10 400 / unitsPerOne) : Int) - 400

/-- The integer part and the rest of `m / 10^exponent`, as numerator and denominator. -/
def onGrid (m : Magnitude) (exponent : Int) : Nat × Nat :=
  if 0 ≤ exponent then (m.units, unitsPerOne * Nat.pow 10 exponent.toNat)
  else (m.units * Nat.pow 10 (-exponent).toNat, unitsPerOne)

/-- Tells whether a decimal reads back as the magnitude. -/
def readsBack (m : Magnitude) (d : DecimalForm) : Bool := d.toMagnitude? == some m

/-- The one of two neighbours that will do; of both of them the one that is nearest. -/
def choose (below above nearest : DecimalForm) : Bool → Bool → Option DecimalForm
  | true, true => some nearest
  | true, false => some below
  | false, true => some above
  | false, false => none

/-- The decimal of `n` significant digits nearest to a magnitude, among those that read back. -/
def withDigits? (m : Magnitude) (n : Nat) : Option DecimalForm :=
  let exponent := m.place - n
  let grid := m.onGrid exponent
  let below : DecimalForm := ⟨grid.1 / grid.2, exponent⟩
  let above : DecimalForm := ⟨grid.1 / grid.2 + 1, exponent⟩
  -- of two equally near neighbours the even one is taken
  choose below above ⟨roundHalfEven grid.1 grid.2, exponent⟩ (m.readsBack below)
    (m.readsBack above)

/-- The decimal with the fewest significant digits that reads back. -/
def fewestDigits? (m : Magnitude) : Option DecimalForm :=
  ((List.range 17).map (· + 1)).findSome? m.withDigits?

/-- The shortest decimal that reads back as the magnitude; seventeen digits always suffice. A
neighbour may be a power of ten, which has fewer digits than its grid. -/
def shortest (m : Magnitude) : DecimalForm :=
  (m.fewestDigits?.map (DecimalForm.stripZeros 17)).getD (DecimalForm.exact m)

end Magnitude

end EnumDecl.Binary64
