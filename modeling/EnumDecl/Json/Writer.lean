import EnumDecl.Json.Order

/-!
# Writing JSON

A value as one line of ASCII. Mappings are written with their keys in the order of code points,
items are separated by a comma and a space and keys from values by a colon and a space. Everything
outside the range from the space to the tilde is escaped, by a short escape where there is one and
otherwise by its UTF-16 code units. A pair is written as a list. What holds itself, bytes, sets and
dates have no written form.
-/

namespace EnumDecl.Json

/-- The written form of the names that are no numbers. -/
def numberForm : Binary64.WrittenForm :=
  { Binary64.plainForm with nan := "NaN", infinity := "Infinity" }

/-- The escape of a UTF-16 code unit. -/
def escapeUnit (n : Nat) : List Char := '\\' :: 'u' :: Text.hex 4 n

/-- The first of the two UTF-16 code units of a code point past the first 65536. -/
def highUnit (n : Nat) : Nat := 0xD800 + (n - 0x10000) / 0x400

/-- The second of the two UTF-16 code units of a code point past the first 65536. -/
def lowUnit (n : Nat) : Nat := 0xDC00 + (n - 0x10000) % 0x400

/-- One character as it stands in quotes. -/
def escape (c : Char) : List Char :=
  if c = '\\' then ['\\', '\\']
  else if c = '\x22' then ['\\', '\x22']
  else if 0x20 ≤ c.toNat && c.toNat ≤ 0x7E then [c]
  else if c = '\n' then ['\\', 'n']
  else if c = '\r' then ['\\', 'r']
  else if c = '\t' then ['\\', 't']
  else if c = '\x08' then ['\\', 'b']
  else if c = '\x0C' then ['\\', 'f']
  else if c.toNat ≤ 0xFFFF then escapeUnit c.toNat
  else escapeUnit (highUnit c.toNat) ++ escapeUnit (lowUnit c.toNat)

/-- A text in quotes. -/
def quoted (cs : List Char) : List Char := '\x22' :: cs.flatMap escape ++ ['\x22']

/-- An integer, unless it is past the digit limit. -/
def intChars (i : Int) : Except Fault (List Char) :=
  if Decimal.isWritable i then .ok (Decimal.intDigits i) else .error .unwritableNumber

/-- The text of a key. -/
def keyText (k : Value) : Except Fault String :=
  match k.bare with
  | .text s => .ok s
  | .float x => .ok (x.textIn numberForm)
  | .bool b => .ok (if b then "true" else "false")
  | .null => .ok "null"
  | .int i => (intChars i).map String.ofList
  | other => .error (.notJsonKey other.kind)

/-! ## Values -/

/-- Written items with commas between them. -/
def separated : List (List Char) → List Char
  | [] => []
  | [x] => x
  | x :: y :: rest => x ++ ',' :: ' ' :: separated (y :: rest)

/-- A key and a written value. -/
def entryChars (e : Value × Except Fault (List Char)) : Except Fault (List Char) := do
  let key ← keyText e.1
  let value ← e.2
  pure (quoted key.toList ++ ':' :: ' ' :: value)

/-- A mapping from its entries with their values written already; the first fault in the order of
the keys is the one that counts. -/
def mappingChars (entries : List (Value × Except Fault (List Char))) :
    Except Fault (List Char) := do
  let written ← (← sortEntries entries).mapM entryChars
  pure ('\x7b' :: separated written ++ ['\x7d'])

mutual

/-- A value inside the things whose marks are given. -/
def valueChars (around : List Mark) : Value → Except Fault (List Char)
  | .null => .ok ['n', 'u', 'l', 'l']
  | .bool true => .ok ['t', 'r', 'u', 'e']
  | .bool false => .ok ['f', 'a', 'l', 's', 'e']
  | .int i => intChars i
  | .float x => .ok (x.textIn numberForm).toList
  | .text s => .ok (quoted s.toList)
  | .list xs => do pure ('[' :: separated (← itemsChars around xs) ++ [']'])
  | .pair a b => do
    let first ← valueChars around a
    let second ← valueChars around b
    pure ('[' :: separated [first, second] ++ [']'])
  | .mapping es => mappingChars (entriesChars around es)
  | .marked m v =>
    if around.contains m && !v.isHashable then .error .circular else valueChars (m :: around) v
  | .again _ _ => .error .circular
  | .bytes _ => .error (.notJson .bytes)
  | .set _ => .error (.notJson .set)
  | .date _ => .error (.notJson .date)
  | .dateTime _ => .error (.notJson .dateTime)

/-- The items of a list. -/
def itemsChars (around : List Mark) : List Value → Except Fault (List (List Char))
  | [] => .ok []
  | x :: xs => do
    let first ← valueChars around x
    pure (first :: (← itemsChars around xs))

/-- The entries of a mapping, each with its written value or what is wrong with it. -/
def entriesChars (around : List Mark) :
    List (Value × Value) → List (Value × Except Fault (List Char))
  | [] => []
  | (k, v) :: es => (k, valueChars around v) :: entriesChars around es

end

/-- The JSON text of a value. -/
def write (v : Value) : Except Fault String := (valueChars [] v).map String.ofList

end EnumDecl.Json
