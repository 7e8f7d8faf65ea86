import EnumDecl.Fault

/-!
# Reading JSON

The reader takes one value from the front of the characters that remain and leaves the others. A
fault says what was expected and keeps the characters that remained, from which `read` works out
the place.

Next to standard JSON the names `NaN`, `Infinity` and `-Infinity` are numbers. A numeral with a
point or an exponent is a floating point number, any other one an integer within the digit limit.
Of two entries with one key the later value counts. Half of a surrogate pair standing alone reads
as the replacement character.
-/

namespace EnumDecl.Json

/-- Why reading stopped. -/
inductive Stop
  | /-- A problem, and the characters from the place where it shows. -/
    problem (p : Problem) (rest : List Char)
  | /-- A numeral of too many digits. -/
    unreadableNumber (digits : Nat)

/-- Something read and the characters after it. -/
abbrev Step (α : Type) := Except Stop (α × List Char)

/-- The four characters that may stand between tokens. -/
def isSpace (c : Char) : Bool := c == ' ' || c == '\t' || c == '\n' || c == '\r'

/-- The characters after white space. -/
def skipSpace (cs : List Char) : List Char := cs.dropWhile isSpace

/-! ## Texts -/

/-- The character a short escape stands for. -/
def shortEscape? (c : Char) : Option Char :=
  if c = '\x22' || c = '\\' || c = '/' then some c
  else if c = 'b' then some '\x08'
  else if c = 'f' then some '\x0C'
  else if c = 'n' then some '\n'
  else if c = 'r' then some '\r'
  else if c = 't' then some '\t'
  else none

/-- Puts a unit in front of those that are read after it. -/
def pushUnit (n : Nat) (r : Step (List Nat)) : Step (List Nat) := r.map fun s => (n :: s.1, s.2)

/--
The units of a text up to its closing quote: code points as they stand, and code units where they
are escaped. `start` is where the text began, its opening quote included.
-/
def readUnits (start : List Char) : List Char → Step (List Nat)
  | [] => .error (.problem .unterminatedText start)
  | c :: cs =>
    if c = '\x22' then .ok ([], cs)
    else if c.toNat < 0x20 then .error (.problem .controlCharacter (c :: cs))
    else if c ≠ '\\' then pushUnit c.toNat (readUnits start cs)
    else
      match cs with
      | [] => .error (.problem .unterminatedText start)
      -- the four digits must not end the text: at least a quote has to follow
      | 'u' :: p :: q :: r :: s :: rest =>
        match rest.isEmpty, Text.readHex? [p, q, r, s] with
        | false, some n => pushUnit n (readUnits start rest)
        | _, _ => .error (.problem .invalidCodeUnit cs)
      | x :: rest =>
        if x = 'u' then .error (.problem .invalidCodeUnit cs)
        else
          match shortEscape? x with
          | some y => pushUnit y.toNat (readUnits start rest)
          | none => .error (.problem .invalidEscape (c :: cs))

/-- The first half of a surrogate pair. -/
def isHighUnit (n : Nat) : Bool := 0xD800 ≤ n && n ≤ 0xDBFF

/-- The second half of a surrogate pair. -/
def isLowUnit (n : Nat) : Bool := 0xDC00 ≤ n && n ≤ 0xDFFF

/-- The character of a unit standing alone. -/
def ofUnit (n : Nat) : Char := if isHighUnit n || isLowUnit n then '\uFFFD' else Char.ofNat n

/-- The characters of units, each surrogate pair making one. -/
def ofUnits : List Nat → List Char
  | [] => []
  | [n] => [ofUnit n]
  | n :: m :: rest =>
    if isHighUnit n && isLowUnit m then
      Char.ofNat (0x10000 + (n - 0xD800) * 0x400 + (m - 0xDC00)) :: ofUnits rest
    else ofUnit n :: ofUnits (m :: rest)

/-- A text after its opening quote. -/
def readText (start cs : List Char) : Step String :=
  (readUnits start cs).map fun s => (String.ofList (ofUnits s.1), s.2)

/-! ## Numbers and names -/

/-- The digits of an integer part: a zero alone, or digits that start with another one. -/
def wholePart? : List Char → Option (List Char × List Char)
  | [] => none
  | c :: cs =>
    if c = '0' then some ([c], cs)
    else if c.isDigit then some (c :: cs.takeWhile Char.isDigit, cs.dropWhile Char.isDigit)
    else none

/-- The point and the digits of a fraction, where there are any. -/
def fractionPart : List Char → List Char × List Char
  | '.' :: d :: cs =>
    if d.isDigit then ('.' :: d :: cs.takeWhile Char.isDigit, cs.dropWhile Char.isDigit)
    else ([], '.' :: d :: cs)
  | cs => ([], cs)

/-- An exponent with its mark, where there is one with at least one digit. -/
def exponentPart (cs : List Char) : List Char × List Char :=
  match cs with
  | e :: rest =>
    if e = 'e' || e = 'E' then
      let (sign, rest) := match rest with
        | '-' :: ds => (['-'], ds)
        | '+' :: ds => (['+'], ds)
        | ds => ([], ds)
      let ds := rest.takeWhile Char.isDigit
      if ds.isEmpty then ([], cs) else (e :: sign ++ ds, rest.dropWhile Char.isDigit)
    else ([], cs)
  | [] => ([], [])

/-- The number of a numeral in its parts. -/
def numberOf (negative : Bool) (whole fraction exponent : List Char) : Except Stop Value :=
  if fraction.isEmpty && exponent.isEmpty then
    if Decimal.isReadable whole then
      let n : Int := Decimal.value whole
      .ok (.int (if negative then -n else n))
    else .error (.unreadableNumber whole.length)
  else
    let read := Binary64.readUnsigned? negative (whole ++ fraction ++ exponent)
    .ok (.float (read.getD .nan))

/-- A numeral; `start` is where it begins, its sign included. -/
def readNumber (start : List Char) (negative : Bool) (cs : List Char) : Step Value :=
  match wholePart? cs with
  | none => .error (.problem .expectedValue start)
  | some (whole, rest) =>
    let (fraction, rest) := fractionPart rest
    let (exponent, rest) := exponentPart rest
    (numberOf negative whole fraction exponent).map fun v => (v, rest)

/-- The names that are values; there is one not-a-number for all places where its name stands. -/
def names : List (String × Value) := [
  ("null", .null), ("true", .bool true), ("false", .bool false),
  ("NaN", .marked .constant (.float .nan)),
  ("Infinity", .float (.infinity false)), ("-Infinity", .float (.infinity true))]

/-- The value of the name at the front. -/
def readName? (cs : List Char) : Option (Value × List Char) :=
  names.findSome? fun n => (n.1.toList.isPrefixOf? cs).map fun rest => (n.2, rest)

/-- A name or a numeral. -/
def readAtom (cs : List Char) : Step Value :=
  match readName? cs with
  | some found => .ok found
  | none =>
    match cs with
    | '-' :: rest => readNumber cs true rest
    | _ => readNumber cs false cs

/-! ## Values -/

mutual

/-- A value; the fuel bounds how deep and how long it is. A character takes two of it at most. -/
def readValue : (fuel : Nat) → List Char → Step Value
  | 0, cs => .error (.problem .expectedValue cs)
  | fuel + 1, cs =>
    match cs with
    | '\x22' :: rest => (readText cs rest).map fun s => (.text s.1, s.2)
    | '[' :: rest =>
      match skipSpace rest with
      | ']' :: rest => .ok (.list [], rest)
      | rest => (readItems fuel rest).map fun s => (.list s.1, s.2)
    | '\x7b' :: rest =>
      match skipSpace rest with
      | '\x7d' :: rest => .ok (.mapping [], rest)
      | rest => (readEntries fuel [] rest).map fun s => (.mapping s.1, s.2)
    | _ => readAtom cs

/-- The items of a list from one on, and the bracket after them. -/
def readItems : (fuel : Nat) → List Char → Except Stop (List Value × List Char)
  | 0, cs => .error (.problem .expectedValue cs)
  | fuel + 1, cs => do
    let (first, rest) ← readValue fuel cs
    match skipSpace rest with
    | ']' :: rest => pure ([first], rest)
    | ',' :: rest =>
      let (others, rest) ← readItems fuel (skipSpace rest)
      pure (first :: others, rest)
    | rest => throw (.problem .expectedComma rest)

/-- The entries of a mapping from one on, put after those before them, and the brace after them. -/
def readEntries : (fuel : Nat) → List (Value × Value) → List Char →
    Except Stop (List (Value × Value) × List Char)
  | 0, _, cs => .error (.problem .expectedName cs)
  | fuel + 1, before, cs => do
    match cs with
    | '\x22' :: rest =>
      let (key, rest) ← readText cs rest
      match skipSpace rest with
      | ':' :: rest =>
        let (value, rest) ← readValue fuel (skipSpace rest)
        let entries := Value.insert (.text key) value before
        match skipSpace rest with
        | '\x7d' :: rest => pure (entries, rest)
        | ',' :: rest => readEntries fuel entries (skipSpace rest)
        | rest => throw (.problem .expectedComma rest)
      | rest => throw (.problem .expectedColon rest)
    | _ => throw (.problem .expectedName cs)

end

/-- A value with white space around it and nothing else. -/
def readAll (cs : List Char) : Except Stop Value := do
  match cs with
  | '\uFEFF' :: _ => throw (.problem .byteOrderMark cs)
  | _ =>
    let (value, rest) ← readValue (2 * cs.length + 2) (skipSpace cs)
    match skipSpace rest with
    | [] => pure value
    | rest => throw (.problem .extraData rest)

/-- The fault of a text at which reading stopped. -/
def Stop.fault (cs : List Char) : Stop → Fault
  | .problem p rest => .json (Misread.after p (cs.take (cs.length - rest.length)))
  | .unreadableNumber n => .unreadableNumber n

/-- The value of a JSON text. -/
def read (text : String) : Except Fault Value :=
  (readAll text.toList).mapError (Stop.fault text.toList)

end EnumDecl.Json
