import EnumDecl.Yaml.Character

/-!
# Places in a text

A cursor is what remains of a text together with the place it has been read to. Lines end at a line
feed, a carriage return that no line feed follows, or one of the Unicode line ends. A byte order
mark takes no column.
-/

namespace EnumDecl.Yaml

/-- What remains to be read, and how many characters, lines and columns were read before. -/
structure Cursor where
  rest : List Char
  index : Nat
  line : Nat
  column : Nat

namespace Cursor

/-- The start of a text. -/
def start (cs : List Char) : Cursor := ⟨cs, 0, 0, 0⟩

/-- The next character, or the end mark. -/
def peek (c : Cursor) : Char := c.rest.headD endMark

/-- The cursor after one more character. -/
def next (c : Cursor) : Cursor :=
  match c.rest with
  | [] => c
  | d :: rest =>
    if isFeed d || (d == '\r' && rest.head? != some '\n') then ⟨rest, c.index + 1, c.line + 1, 0⟩
    else if d = '\uFEFF' then ⟨rest, c.index + 1, c.line, c.column⟩
    else ⟨rest, c.index + 1, c.line, c.column + 1⟩

/-- The cursor after some more characters. -/
def skip (c : Cursor) : Nat → Cursor
  | 0 => c
  | n + 1 => c.next.skip n

/-- The cursor at the point where only the given characters remain. -/
def moveTo (c : Cursor) (rest : List Char) : Cursor := c.skip (c.rest.length - rest.length)

end Cursor

/-! ## Line ends -/

/-- The line end at the front as it is read, where there is one: those that a text file has become
a line feed, those of Unicode stay. -/
def lineBreak? : List Char → Option (Char × List Char)
  | [] => none
  | c :: cs =>
    if c = '\r' then
      match cs with
      | '\n' :: rest => some ('\n', rest)
      | _ => some ('\n', cs)
    else if c = '\n' || c = '\u0085' then some ('\n', cs)
    else if c = '\u2028' || c = '\u2029' then some (c, cs)
    else none

/-- Tells whether a mark between documents stands at the front; it has to stand at the start of a
line. -/
def atMarker (cs : List Char) : Bool :=
  (['-', '-', '-'].isPrefixOf cs || ['.', '.', '.'].isPrefixOf cs)
    && isBlank ((cs.drop 3).headD endMark)

/-- What becomes of the line ends between two parts of a text: a single line feed becomes a space,
a line feed before others is left out, any other line end stays. -/
def foldBreaks (first : Char) (others : List Char) : List Char :=
  if first ≠ '\n' then first :: others
  else if others.isEmpty then [' ']
  else others

end EnumDecl.Yaml
