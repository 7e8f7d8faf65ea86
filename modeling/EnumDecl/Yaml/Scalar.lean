import EnumDecl.Yaml.Style

/-!
# Scalars as written

A scalar is written from some column on. Past column 80 a line is broken where that does not change
what is read: a plain or single quoted text at a single space between two words, a double quoted
one before a space or after an escape, behind a backslash. The lines after the first are indented.
-/

namespace EnumDecl.Yaml

/-- The column past which lines are broken. -/
def lineWidth : Nat := 80

/-- Where a scalar is written. -/
structure Place where
  /-- The column of its first character. -/
  column : Nat
  /-- How far the lines after the first are indented. -/
  indent : Nat
  /-- Whether the lines may be broken. -/
  folds : Bool

/-- A line feed and the indentation after it. -/
def newLine (indent : Nat) : List Char := '\n' :: List.replicate indent ' '

/-- The runs of spaces, of line feeds and of other characters that make up a text. -/
def runs (cs : List Char) : List (List Char) :=
  cs.splitBy fun a b => (a == ' ') == (b == ' ') && (a == '\n') == (b == '\n')

/-- The words of a plain text and the spaces between them from some column on. -/
def plainRuns (p : Place) (column : Nat) : List (List Char) → List Char
  | [] => []
  | r :: rs =>
    if r == [' '] && lineWidth < column && p.folds then newLine p.indent ++ plainRuns p p.indent rs
    else r ++ plainRuns p (column + r.length) rs

/-- A plain text. -/
def plainChars (p : Place) (cs : List Char) : List Char := plainRuns p p.column (runs cs)

/-- The characters of a run in single quotes: a quote is written twice. -/
def doubleQuotes (cs : List Char) : List Char :=
  cs.flatMap fun c => if c = '\x27' then ['\x27', '\x27'] else [c]

/-- The runs of a single quoted text from some column on; `first` tells that none stands before
them. -/
def singleRuns (p : Place) (first : Bool) (column : Nat) : List (List Char) → List Char
  | [] => []
  | r :: rs =>
    -- a line feed is written as an empty line more than there are feeds
    if r.head? = some '\n' then
      '\n' :: r ++ List.replicate p.indent ' ' ++ singleRuns p false p.indent rs
    else if r == [' '] && lineWidth < column && p.folds && !first && !rs.isEmpty then
      newLine p.indent ++ singleRuns p false p.indent rs
    else
      let written := doubleQuotes r
      written ++ singleRuns p false (column + written.length) rs

/-- A text in single quotes. -/
def singleChars (p : Place) (cs : List Char) : List Char :=
  '\x27' :: singleRuns p true (p.column + 1) (runs cs) ++ ['\x27']

/-- The letters of the short escapes and the characters they stand for. -/
def shortEscapes : List (Char × Char) := [
  ('0', '\x00'), ('a', '\x07'), ('b', '\x08'), ('t', '\t'), ('n', '\n'), ('v', '\x0B'),
  ('f', '\x0C'),
  ('r', '\r'), ('e', '\x1B'), ('\x22', '\x22'), ('\\', '\\'), ('N', '\u0085'), ('_', '\u00A0'),
  ('L', '\u2028'), ('P', '\u2029')]

/-- The escape of a character that does not stand for itself in double quotes. -/
def escapeOf? (c : Char) : Option (List Char) :=
  match shortEscapes.find? fun e => e.2 == c with
  | some e => some ['\\', e.1]
  | none =>
    if isOrdinary c then none
    else if c.toNat ≤ 0xFF then some ('\\' :: 'x' :: Text.upperHex 2 c.toNat)
    else if c.toNat ≤ 0xFFFF then some ('\\' :: 'u' :: Text.upperHex 4 c.toNat)
    else some ('\\' :: 'U' :: Text.upperHex 8 c.toNat)

/-- A backslash that joins two lines, and one more where the second begins with a space. -/
def lineJoin (p : Place) (spaceNext : Bool) : List Char :=
  '\\' :: newLine p.indent ++ (if spaceNext then ['\\'] else [])

/-- The column after a joined line's indentation. -/
def joinedColumn (p : Place) (spaceNext : Bool) : Nat := p.indent + (if spaceNext then 1 else 0)

/--
The characters of a double quoted text from some column on. `first` tells that none stands before
them, `afterEscape` that an escape does. A line ends before a space, before a character after an
escape, or after an escape, but not next to a quote.
-/
def doubleRest (p : Place) (first afterEscape : Bool) (column : Nat) : List Char → List Char
  | [] => []
  | c :: cs =>
    let inner := p.folds && !first && !cs.isEmpty
    match escapeOf? c with
    -- an escape is written whole and the line may end after it
    | some written =>
      let column := column + written.length
      let spaceNext := cs.head? == some ' '
      if inner && lineWidth < column - 1 then
        written ++ lineJoin p spaceNext ++ doubleRest p false true (joinedColumn p spaceNext) cs
      else written ++ doubleRest p false true column cs
    -- a character that stands for itself goes to the next line
    | none =>
      if inner && (c == ' ' || afterEscape) && lineWidth < column then
        lineJoin p (c == ' ') ++ c :: doubleRest p false false (joinedColumn p (c == ' ') + 1) cs
      else c :: doubleRest p false false (column + 1) cs

/-- A text in double quotes. -/
def doubleChars (p : Place) (cs : List Char) : List Char :=
  '\x22' :: doubleRest p true true (p.column + 1) cs ++ ['\x22']

/-- A text in its style. -/
def textChars (p : Place) (asKey : Bool) (cs : List Char) : List Char :=
  match styleOf asKey cs with
  | .plain => plainChars p cs
  | .single => singleChars p cs
  | .double => doubleChars p cs

end EnumDecl.Yaml
