import EnumDecl.Text.Printable
import EnumDecl.Text.Hex

/-!
# Text shown in quotes

Messages show a text in single quotes, or in double quotes when it holds a single quote and no
double quote. The backslash and the quote in use are escaped, line feed, carriage return and tab
have short escapes, and every other unprintable character is written by its code point in the
shortest of the forms `\xNN`, `\uNNNN` and `\UNNNNNNNN`. Bytes are shown in the same way behind a
`b`, as far as ASCII has printable characters for them.
-/

namespace EnumDecl.Text

/-- The quote around a text: the double one only where it saves an escape. -/
def quoteFor (cs : List Char) : Char :=
  if cs.contains '\x27' && !cs.contains '\x22' then '\x22' else '\x27'

/-- One character as it stands between `quote` marks. -/
def escapeIn (quote c : Char) : List Char :=
  if c = quote || c = '\\' then ['\\', c]
  else if c = '\n' then ['\\', 'n']
  else if c = '\r' then ['\\', 'r']
  else if c = '\t' then ['\\', 't']
  else if isPrintable c then [c]
  else if c.toNat ≤ 0xFF then '\\' :: 'x' :: hex 2 c.toNat
  else if c.toNat ≤ 0xFFFF then '\\' :: 'u' :: hex 4 c.toNat
  else '\\' :: 'U' :: hex 8 c.toNat

/-- The characters of a text in quotes. -/
def quotedChars (cs : List Char) : List Char :=
  let quote := quoteFor cs
  quote :: cs.flatMap (escapeIn quote) ++ [quote]

/-- A text in quotes, with everything unprintable escaped. -/
def quoted (s : String) : String := String.ofList (quotedChars s.toList)

/-- One byte as it stands between `quote` marks. -/
def escapeByteIn (quote : Char) (b : UInt8) : List Char :=
  let c := Char.ofNat b.toNat
  if c.toNat < 0x7F then escapeIn quote c else '\\' :: 'x' :: hex 2 c.toNat

/-- The characters of bytes in quotes. -/
def quotedByteChars (bytes : List UInt8) : List Char :=
  let quote := quoteFor (bytes.map fun b => Char.ofNat b.toNat)
  'b' :: quote :: bytes.flatMap (escapeByteIn quote) ++ [quote]

/-- Bytes in quotes, with everything that is not printable ASCII escaped. -/
def quotedBytes (bytes : List UInt8) : String := String.ofList (quotedByteChars bytes)

end EnumDecl.Text
