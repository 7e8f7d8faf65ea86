import EnumDecl.Binary64.Text
import EnumDecl.Text.Ending
import EnumDecl.Text.Hex

/-!
# What plain text stands for

A text without quotes or tag is nothing, a truth value, a number or a date if it is written like
one, and a text otherwise. These are the forms of YAML 1.1: truth values in three cases, integers
with underscores, in base two, eight or sixteen or in base sixty with colons, floating point
numbers with a point, and dates with or without a time. Two more forms, `<<` and `=`, have a
meaning as keys of a mapping only. Bytes have no form of their own and need a tag. A line feed at
the end of a text does not change what it stands for.
-/

namespace EnumDecl.Yaml

/-- What a scalar stands for. -/
inductive Form
  | null | bool | int | float | timestamp | bytes | merge | value | text
  deriving DecidableEq

/-- The ways to write nothing. -/
def nullWords : List String := ["", "~", "null", "Null", "NULL"]

/-- The ways to write a truth value that is true. -/
def trueWords : List String := ["yes", "Yes", "YES", "true", "True", "TRUE", "on", "On", "ON"]

/-- The ways to write a truth value that is false. -/
def falseWords : List String := ["no", "No", "NO", "false", "False", "FALSE", "off", "Off", "OFF"]

/-- The ways to write infinity after its sign. -/
def infinityWords : List String := [".inf", ".Inf", ".INF"]

/-- The ways to write not-a-number. -/
def nanWords : List String := [".nan", ".NaN", ".NAN"]

/-- Tells whether a text is one of some words. -/
def isWordOf (words : List String) (cs : List Char) : Bool := words.any fun w => w.toList == cs

/-- A text without the sign in front of it. -/
def dropSign : List Char → List Char
  | '-' :: cs => cs
  | '+' :: cs => cs
  | cs => cs

/-- A digit or an underscore. -/
def isSpacedDigit (c : Char) : Bool := c.isDigit || c == '_'

/-- A digit and after it digits and underscores. -/
def isSpacedNumeral : List Char → Bool
  | [] => false
  | c :: cs => c.isDigit && cs.all isSpacedDigit

/-- Minutes or seconds: one digit, or two of which the first is below six. -/
def isSixtieth : List Char → Bool
  | [d] => d.isDigit
  | [d, e] => '0' ≤ d && d ≤ '5' && e.isDigit
  | _ => false

/-- The pieces of a text between colons. -/
def colonPieces (cs : List Char) : List (List Char) :=
  cs.splitBy fun a b => (a == ':') == (b == ':')

/-- Tells whether pieces are colons and sixtieths by turns. -/
def areSixtieths : List (List Char) → Bool
  | [] => true
  | [':'] :: p :: rest => isSixtieth p && areSixtieths rest
  | _ => false

/-- An integer after its sign. -/
def isUnsignedInt (cs : List Char) : Bool :=
  match cs with
  | [] => false
  | ['0'] => true
  | '0' :: 'b' :: d :: ds => (d :: ds).all fun c => c == '0' || c == '1' || c == '_'
  | '0' :: 'x' :: d :: ds => (d :: ds).all fun c => (Text.hexValue? c).isSome || c == '_'
  | '0' :: ds => ds.all fun c => ('0' ≤ c && c ≤ '7') || c == '_'
  | _ =>
    match colonPieces cs with
    | first :: rest => isSpacedNumeral first && areSixtieths rest
    | [] => false

/-- An exponent with its sign, or nothing. -/
def isExponent : List Char → Bool
  | [] => true
  | e :: s :: d :: ds => (e == 'e' || e == 'E') && (s == '-' || s == '+')
      && (d :: ds).all Char.isDigit
  | _ => false

/-- Digits and underscores, then an exponent or nothing. -/
def isFraction (cs : List Char) : Bool := isExponent (cs.dropWhile isSpacedDigit)

/-- A floating point number with a digit before its point, after its sign. -/
def isUnsignedFloat (cs : List Char) : Bool :=
  let whole := cs.takeWhile (· != '.')
  match cs.dropWhile (· != '.') with
  | '.' :: fraction =>
    match colonPieces whole with
    | [first] => isSpacedNumeral first && isFraction fraction
    | first :: rest => isSpacedNumeral first && areSixtieths rest && fraction.all isSpacedDigit
    | [] => false
  | _ => false

/-- A floating point number. -/
def isFloat (cs : List Char) : Bool :=
  isUnsignedFloat (dropSign cs) || isWordOf infinityWords (dropSign cs) || isWordOf nanWords cs ||
    match cs with
    | '.' :: d :: ds => d.isDigit && isFraction ds
    | _ => false

/-! ## Dates -/

/-- The digits of a date and, where there is one, of a time. -/
structure Timestamp where
  year : List Char
  month : List Char
  day : List Char
  time : Option (List Char × List Char × List Char × List Char)
  /-- The sign, hours and minutes of an offset; `Z` is written as no sign. -/
  zone : Option (Option Char × List Char × List Char)

/-- The digits at the front, if there are at least `lo` and at most `hi`. -/
def digitRun? (lo hi : Nat) (cs : List Char) : Option (List Char × List Char) :=
  let ds := cs.takeWhile Char.isDigit
  if lo ≤ ds.length && ds.length ≤ hi then some (ds, cs.dropWhile Char.isDigit) else none

/-- The characters after a given one at the front. -/
def expect? (c : Char) : List Char → Option (List Char)
  | d :: cs => if d = c then some cs else none
  | [] => none

/-- An offset up to the end of the text, or nothing. -/
def readZone? (cs : List Char) : Option (Option (Option Char × List Char × List Char)) :=
  if cs.isEmpty then some none
  else
    match cs.dropWhile fun c => c == ' ' || c == '\t' with
    | ['Z'] => some (some (none, [], []))
    | s :: rest =>
      if s = '-' || s = '+' then do
        let (hours, rest) ← digitRun? 1 2 rest
        if rest.isEmpty then pure (some (some s, hours, []))
        else
          let (minutes, rest) ← digitRun? 2 2 (← expect? ':' rest)
          if rest.isEmpty then pure (some (some s, hours, minutes)) else none
      else none
    | [] => none

/-- The separator between a date and a time: a `T` in either case, or spaces and tabs. -/
def afterDate? : List Char → Option (List Char)
  | c :: cs =>
    if c = 'T' || c = 't' then some cs
    else if c = ' ' || c = '\t' then some (cs.dropWhile fun d => d == ' ' || d == '\t')
    else none
  | [] => none

/-- A date with or without a time, up to the end of the text. -/
def readTimestampLine? (cs : List Char) : Option Timestamp := do
  let (year, rest) ← digitRun? 4 4 cs
  let (month, rest) ← digitRun? 1 2 (← expect? '-' rest)
  let (day, rest) ← digitRun? 1 2 (← expect? '-' rest)
  if rest.isEmpty then pure ⟨year, month, day, none, none⟩
  else
    let (hour, rest) ← digitRun? 1 2 (← afterDate? rest)
    let (minute, rest) ← digitRun? 2 2 (← expect? ':' rest)
    let (second, rest) ← digitRun? 2 2 (← expect? ':' rest)
    let (fraction, rest) := match rest with
      | '.' :: rest => (rest.takeWhile Char.isDigit, rest.dropWhile Char.isDigit)
      | rest => ([], rest)
    pure ⟨year, month, day, some (hour, minute, second, fraction), ← readZone? rest⟩

/-- A date with or without a time. -/
def readTimestamp? (cs : List Char) : Option Timestamp :=
  readTimestampLine? (Text.dropFinalBreak cs)

/-- A date on its own needs two digits for the month and the day, one with a time does not. -/
def isTimestamp (cs : List Char) : Bool :=
  match readTimestampLine? cs with
  | some t => t.time.isSome || (t.month.length == 2 && t.day.length == 2)
  | none => false

/-! ## The form of a text -/

/-- What a text without quotes and tag stands for that does not end in a line feed. -/
def resolveLine (cs : List Char) : Form :=
  if isWordOf nullWords cs then .null
  else if isWordOf trueWords cs || isWordOf falseWords cs then .bool
  else if isFloat cs then .float
  else if isUnsignedInt (dropSign cs) then .int
  else if isTimestamp cs then .timestamp
  else if cs = ['<', '<'] then .merge
  else if cs = ['='] then .value
  else .text

/-- What a text without quotes and tag stands for. -/
def resolve (cs : List Char) : Form :=
  if cs = ['\n'] then .text else resolveLine (Text.dropFinalBreak cs)

end EnumDecl.Yaml
