/-!
# Decimal numerals

Integers are written with their digits and no leading zero, and read from a run of digits of which
any number may be leading zeros. Both directions stop at 4300 digits: a longer run is refused when
it is read, leading zeros counted, and an integer of more digits is refused when it is written.
-/

namespace EnumDecl.Decimal

/-- The greatest number of digits that is read or written. -/
def digitLimit : Nat := 4300

/-- The number that a run of decimal digits stands for. -/
def value (digits : List Char) : Nat :=
  digits.foldl (fun acc c => 10 * acc + (c.toNat - 0x30)) 0

/-- The decimal digits of a number, without leading zeros. -/
def digits (n : Nat) : List Char := Nat.toDigits 10 n

/-- The digits of an integer after its sign. -/
def intDigits (i : Int) : List Char :=
  if i < 0 then '-' :: digits i.natAbs else digits i.natAbs

/-- An integer as text. -/
def ofInt (i : Int) : String := String.ofList (intDigits i)

/-- A natural number as text. -/
def ofNat (n : Nat) : String := String.ofList (digits n)

/-- Tells whether an integer may be written within the digit limit. -/
def isWritable (i : Int) : Bool := i.natAbs < Nat.pow 10 digitLimit

/-- Tells whether a run of digits may be read within the digit limit. -/
def isReadable (digits : List Char) : Bool := digits.length ≤ digitLimit

/-- A number with at least `width` digits, filled up with zeros. -/
def padded (width n : Nat) : String :=
  let ds := digits n
  String.ofList (List.replicate (width - ds.length) '0' ++ ds)

end EnumDecl.Decimal
