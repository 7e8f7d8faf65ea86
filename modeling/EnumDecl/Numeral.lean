import EnumDecl.Binary64.Text
import EnumDecl.Text.Blank
import EnumDecl.Text.Hex

/-!
# Numerals as people write them

The integer or floating point number that a text stands for which was not written by this library:
white space may stand around it, its digits may be those of any script, and a sign may stand in
front. An integer of base two, eight or sixteen may begin with the letter of its base after a zero.
In a floating point number an underscore may stand between two digits.
-/

namespace EnumDecl.Numeral

/-- Why a text is no numeral. -/
inductive Flaw
  | /-- It is not written like one. -/
    malformed
  | /-- It has more digits than are read. -/
    tooLong (digits : Nat)
  deriving DecidableEq

/-- A character as ASCII has it: white space as a space, a digit of any script as that digit, and
any other as a question mark, which no numeral holds. -/
def asciiOf (c : Char) : Char :=
  if c.toNat < 0x7F then c
  else if Text.isWideSpace c then ' '
  else
    match Text.digitValue? c with
    | some d => Char.ofNat (0x30 + d)
    | none => '?'

/-- A text without the white space around it. -/
def trim (cs : List Char) : List Char :=
  ((cs.dropWhile Text.isAsciiSpace).reverse.dropWhile Text.isAsciiSpace).reverse

/-- The sign in front of a numeral, which tells whether it is negative, and what follows it. -/
def splitSign : List Char → Bool × List Char
  | '-' :: cs => (true, cs)
  | '+' :: cs => (false, cs)
  | cs => (false, cs)

/-! ## Integers -/

/-- A digit of some base. -/
def isDigitOf (base : Nat) (c : Char) : Bool := (Text.hexValue? c).any (· < base)

/-- The number of a run of digits. -/
def digitsValue (base : Nat) (ds : List Char) : Nat :=
  ds.foldl (fun acc c => base * acc + (Text.hexValue? c).getD 0) 0

/-- The letter that may announce a base. -/
def baseLetter? (base : Nat) : Option Char :=
  if base = 2 then some 'b' else if base = 8 then some 'o' else if base = 16 then some 'x'
  else none

/-- A numeral without the announcement of its base. -/
def dropBase (base : Nat) (cs : List Char) : List Char :=
  match cs with
  | '0' :: c :: rest => if baseLetter? base = some c.toLower then rest else cs
  | _ => cs

/-- An integer in some base. The digits of a decimal one are counted before what follows them is
looked at. -/
def integer (base : Nat) (cs : List Char) : Except Flaw Int :=
  let (negative, unsigned) := splitSign ((cs.map asciiOf).dropWhile Text.isAsciiSpace)
  let numeral := dropBase base unsigned
  let digits := numeral.takeWhile (isDigitOf base)
  if base = 10 && !Decimal.isReadable digits then .error (.tooLong digits.length)
  else if digits.isEmpty || !(numeral.dropWhile (isDigitOf base)).all Text.isAsciiSpace then
    .error .malformed
  else
    let n : Int := digitsValue base digits
    .ok (if negative then -n else n)

/-! ## Floating point numbers -/

/-- A numeral without the underscores between its digits; `afterDigit` tells that a digit stands
before it. -/
def joinDigits? (afterDigit : Bool) : List Char → Option (List Char)
  | [] => some []
  | '_' :: d :: cs =>
    if afterDigit && d.isDigit then (joinDigits? true cs).map (d :: ·) else none
  | c :: cs => if c = '_' then none else (joinDigits? c.isDigit cs).map (c :: ·)

/-- The floating point number of a text, unless it is no numeral. -/
def float? (cs : List Char) : Option Binary64 :=
  joinDigits? false (trim (cs.map asciiOf)) >>= Binary64.readChars?

end EnumDecl.Numeral
