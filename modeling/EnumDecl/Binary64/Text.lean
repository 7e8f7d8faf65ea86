import EnumDecl.Binary64.Shortest

/-!
# The text of a binary floating point number

A number is written with its shortest digits: positionally when its first digit stands at most four
places after the point and at most sixteen before it, otherwise with one digit before the point and
an exponent of at least two digits with its sign. Positional text always has a digit after the
point.
-/

namespace EnumDecl.Binary64

/-- The decisions of a written form that are not mathematics. -/
structure WrittenForm where
  /-- The least place of the first digit that is written positionally. -/
  leastPlace : Int
  /-- The greatest place of the first digit that is written positionally. -/
  greatestPlace : Int
  /-- The least number of digits of an exponent. -/
  exponentWidth : Nat
  nan : String
  infinity : String

/-- Positional for decimal exponents from -4 to 15. -/
def plainForm : WrittenForm := ⟨-3, 16, 2, "nan", "inf"⟩

/-- Digits with the point after the given place, padded with zeros on either side of it. -/
def positional (ds : List Char) (place : Int) : List Char :=
  if place ≤ 0 then '0' :: '.' :: List.replicate (-place).toNat '0' ++ ds
  else
    let n := place.toNat
    if ds.length ≤ n then ds ++ List.replicate (n - ds.length) '0' ++ ['.', '0']
    else ds.take n ++ '.' :: ds.drop n

/-- One digit, the others after the point, and the exponent. -/
def scientific (width : Nat) (ds : List Char) (place : Int) : List Char :=
  let exponent := place - 1
  let sign := if exponent < 0 then '-' else '+'
  let power := Decimal.digits exponent.natAbs
  let mantissa := match ds with
    | d :: e :: rest => d :: '.' :: e :: rest
    | _ => ds
  mantissa ++ 'e' :: sign :: List.replicate (width - power.length) '0' ++ power

/-- The text of a magnitude. -/
def Magnitude.textChars (form : WrittenForm) (m : Magnitude) : List Char :=
  if m.isZero then ['0', '.', '0']
  else
    let d := m.shortest
    let ds := Decimal.digits d.digits
    let place := ds.length + d.exponent
    if form.leastPlace ≤ place && place ≤ form.greatestPlace then positional ds place
    else scientific form.exponentWidth ds place

/-- The text of a number in a written form. -/
def textIn (form : WrittenForm) : Binary64 → String
  | .nan => form.nan
  | .infinity s => (if s then "-" else "") ++ form.infinity
  | .finite s m => (if s then "-" else "") ++ String.ofList (m.textChars form)

/-- The text of a number. -/
def text : Binary64 → String := textIn plainForm

/-! ## Reading -/

/-- The decimal digits at the front of a text and what follows them. -/
def spanDigits (cs : List Char) : List Char × List Char :=
  (cs.takeWhile Char.isDigit, cs.dropWhile Char.isDigit)

/-- An exponent: the mark, an optional sign and at least one digit, up to the end of the text. -/
def readExponent? : List Char → Option Int
  | [] => some 0
  | c :: rest =>
    if c = 'e' || c = 'E' then
      let (negative, ds) := match rest with
        | '-' :: ds => (true, ds)
        | '+' :: ds => (false, ds)
        | ds => (false, ds)
      if ds.isEmpty || !ds.all Char.isDigit then none
      else
        let n : Int := Decimal.value ds
        some (if negative then -n else n)
    else none

/-- A decimal numeral without sign: digits with at most one point among them, then an exponent. -/
def readDecimal? (cs : List Char) : Option DecimalForm :=
  let (whole, rest) := spanDigits cs
  let (fraction, rest) := match rest with
    | '.' :: rest => spanDigits rest
    | _ => ([], rest)
  if whole.isEmpty && fraction.isEmpty then none
  else (readExponent? rest).map fun e => ⟨Decimal.value (whole ++ fraction), e - fraction.length⟩

/-- A numeral without sign, or the name of infinity or not-a-number in any case. -/
def readUnsigned? (negative : Bool) (cs : List Char) : Option Binary64 :=
  let word := String.ofList (cs.map Char.toLower)
  if word = "inf" || word = "infinity" then some (.infinity negative)
  else if word = "nan" then some .nan
  else (readDecimal? cs).map (DecimalForm.toBinary64 negative)

/-- A numeral with an optional sign. -/
def readChars? : List Char → Option Binary64
  | '-' :: cs => readUnsigned? true cs
  | '+' :: cs => readUnsigned? false cs
  | cs => readUnsigned? false cs

/-- The number a text stands for, unless it is no numeral. -/
def ofText? (s : String) : Option Binary64 := readChars? s.toList

end EnumDecl.Binary64
