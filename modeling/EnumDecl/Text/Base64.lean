/-!
# Base 64

Bytes as text: three bytes make four characters of an alphabet of sixty-four, and one or two bytes
at the end are filled up with equals signs. Written text has at most 76 characters on a line, and
every line ends in a line feed. Reading passes over all characters outside of the alphabet, and
ends at the equals signs that fill up a group.
-/

namespace EnumDecl.Text.Base64

/-- The characters that stand for six bits each, in the order of their values. -/
def alphabet : List Char :=
  "ABCDEFGHIJKLMNOPQRSTUVWXYZabcdefghijklmnopqrstuvwxyz0123456789+/".toList

/-- The character of six bits. -/
def digit (n : Nat) : Char := alphabet.getD n '='

/-- The six bits of a character. -/
def digitValue? (c : Char) : Option Nat := alphabet.findIdx? (· == c)

/-- The characters of up to three bytes. -/
def group (bytes : List UInt8) : List Char :=
  match bytes with
  | [] => []
  | [a] => [digit (a.toNat / 4), digit (a.toNat % 4 * 16), '=', '=']
  | [a, b] =>
    [digit (a.toNat / 4), digit (a.toNat % 4 * 16 + b.toNat / 16), digit (b.toNat % 16 * 4), '=']
  | a :: b :: c :: _ =>
    [digit (a.toNat / 4), digit (a.toNat % 4 * 16 + b.toNat / 16),
      digit (b.toNat % 16 * 4 + c.toNat / 64), digit (c.toNat % 64)]

/-- How many bytes are written on a line. -/
def bytesPerLine : Nat := 57

/-- Bytes as text; `room` is how many more of them the line takes. -/
def encodeFrom (room : Nat) : List UInt8 → List Char
  | a :: b :: c :: rest =>
    if room ≤ 3 then group [a, b, c] ++ '\n' :: encodeFrom bytesPerLine rest
    else group [a, b, c] ++ encodeFrom (room - 3) rest
  | [] => if room < bytesPerLine then ['\n'] else []
  | last => group last ++ ['\n']

/-- The lines of some bytes, each with its line feed. -/
def encode (bytes : List UInt8) : List Char := encodeFrom bytesPerLine bytes

/--
The bytes of a text from a place within a group on: `held` characters of the group were read,
`left` are the bits of the last of them that are in no byte yet, and `pads` equals signs stand
before.
-/
def decodeFrom (held left pads : Nat) : List Char → Option (List UInt8)
  | [] => if held = 0 then some [] else none
  | c :: cs =>
    if c = '=' then
      if held < 2 then decodeFrom held left pads cs
      else if 4 ≤ held + pads + 1 then some []
      else decodeFrom held left (pads + 1) cs
    else
      match digitValue? c with
      | none => decodeFrom held left pads cs
      | some v =>
        match held with
        | 0 => decodeFrom 1 v 0 cs
        | 1 => (decodeFrom 2 (v % 16) 0 cs).map (UInt8.ofNat (left * 4 + v / 16) :: ·)
        | 2 => (decodeFrom 3 (v % 4) 0 cs).map (UInt8.ofNat (left * 16 + v / 4) :: ·)
        | _ => (decodeFrom 0 0 0 cs).map (UInt8.ofNat (left * 64 + v) :: ·)

/-- The bytes of a text, unless a group of it is not filled up. -/
def decode? (cs : List Char) : Option (List UInt8) := decodeFrom 0 0 0 cs

end EnumDecl.Text.Base64
