import EnumDecl.Source.Render

/-!
# Source text as a reader sees it

A reader of C# finds the string literals of a text by a rule of its own: after a quote come
ordinary characters, which are neither a quote, nor a backslash, nor an end of a line, and escapes,
up to the next quote. Cut in this way, a text is a list of pieces: characters outside of literals,
and literals with the text they stand for. Brackets are looked for outside of literals only.

A name is an identifier. One that has an at sign in front may be any identifier; a reserved word
without one is no name.
-/

namespace EnumDecl.Source

/-! ## String literals -/

/-- What ends a line in C#. -/
def isLineEnd (c : Char) : Bool :=
  c == '\n' || c == '\r' || c == '\u0085' || c == '\u2028' || c == '\u2029'

/-- The character of an escape of one letter. -/
def letterEscape? (c : Char) : Option Char :=
  if c = '\\' || c = '\x22' then some c
  else if c = 'n' then some '\n'
  else if c = 'r' then some '\r'
  else if c = 't' then some '\t'
  else if c = '0' then some '\x00'
  else none

/-- The character of an escape after its backslash; half of a surrogate pair is none. -/
def readEscape? : List Char → Option (Char × List Char)
  | 'u' :: a :: b :: c :: d :: rest => do
    let n ← Text.readHex? [a, b, c, d]
    if n.isValidChar then some (Char.ofNat n, rest) else none
  | c :: rest => (letterEscape? c).map fun d => (d, rest)
  | [] => none

/-- One character of a literal, ordinary or escaped. -/
def readUnit? : List Char → Option (Char × List Char)
  | [] => none
  | c :: rest =>
    if c = '\\' then readEscape? rest
    else if c = '\x22' || isLineEnd c then none
    else some (c, rest)

/-- The characters of a literal up to its closing quote. -/
def readUnits? : (fuel : Nat) → List Char → Option (List Char × List Char)
  | 0, _ => none
  | fuel + 1, cs =>
    match cs with
    | '\x22' :: rest => some ([], rest)
    | _ => do
      let (c, rest) ← readUnit? cs
      let (text, rest) ← readUnits? fuel rest
      pure (c :: text, rest)

/-- The string literal at the front: what it stands for, and what follows it. -/
def readString? : List Char → Option (List Char × List Char)
  | '\x22' :: rest => readUnits? (rest.length + 1) rest
  | _ => none

/-! ## Pieces -/

/-- A part of a text. -/
inductive Piece
  | /-- A character outside of literals. -/
    outside (c : Char)
  | /-- A literal and what it stands for. -/
    string (text : List Char)
  deriving DecidableEq

/-- The pieces of a text, unless a literal in it is broken. -/
def readPieces? : (fuel : Nat) → List Char → Option (List Piece)
  | 0, _ => none
  | _ + 1, [] => some []
  | fuel + 1, c :: cs =>
    if c = '\x22' then do
      let (text, rest) ← readString? (c :: cs)
      pure (.string text :: (← readPieces? fuel rest))
    else do pure (.outside c :: (← readPieces? fuel cs))

/-- The pieces of a whole text. -/
def pieces? (cs : List Char) : Option (List Piece) := readPieces? (cs.length + 1) cs

/-- What the literals stand for, in order. -/
def stringTexts (ps : List Piece) : List (List Char) :=
  ps.filterMap fun p => match p with
    | .string text => some text
    | .outside _ => none

/-- The pieces with the literals emptied. -/
def withoutTexts (ps : List Piece) : List Piece :=
  ps.map fun p => match p with
    | .string _ => .string []
    | .outside c => .outside c

/-! ## Names -/

/-- Tells whether a text is one name. -/
def isNameToken : List Char → Bool
  | '@' :: cs => Identifier.isIdentifierChars cs
  | cs => Identifier.isIdentifierChars cs && !keywords.contains (String.ofList cs)

/-- The identifier that a name stands for. -/
def nameOfToken : List Char → List Char
  | '@' :: cs => cs
  | cs => cs

/-! ## Brackets -/

/-- The opening bracket of a closing one. -/
def opening? (c : Char) : Option Char :=
  if c = '\x7d' then some '\x7b' else if c = ']' then some '[' else if c = ')' then some '('
  else none

/-- Tells whether a character is an opening bracket. -/
def isOpening (c : Char) : Bool := c == '\x7b' || c == '[' || c == '('

/-- The quote and the brackets, by which a reader finds literals and what is in brackets. -/
def marks : List Char := ['\x22', '\x7b', '\x7d', '[', ']', '(', ')']

/-- The brackets that are open after a character, innermost first; `none` where a closing one meets
another than its own. -/
def nestChar (stack : List Char) (c : Char) : Option (List Char) :=
  if isOpening c then some (c :: stack)
  else
    match opening? c with
    | none => some stack
    | some o =>
      match stack with
      | top :: rest => if top = o then some rest else none
      | [] => none

/-- The brackets that are open after some pieces. -/
def nest (stack : List Char) : List Piece → Option (List Char)
  | [] => some stack
  -- brackets in a literal are text
  | .string _ :: ps => nest stack ps
  | .outside c :: ps =>
    match nestChar stack c with
    | some stack => nest stack ps
    | none => none

/-- How many braces are open. -/
def braceDepth (stack : List Char) : Nat := stack.count '\x7b'

/-- How many pairs of braces are opened by some pieces. -/
def braceCount (ps : List Piece) : Nat := ps.count (.outside '\x7b')

/-- The braces among some pieces, opening and closing ones, in their order. -/
def braces (ps : List Piece) : List Char :=
  ps.filterMap fun p => match p with
    | .outside c => if c = '\x7b' ∨ c = '\x7d' then some c else none
    | .string _ => none

/-! ## The texts in an enumeration -/

/-- The text of an argument that is a literal text. -/
def literalString? : Argument → Option String
  | .literal v =>
    match v.bare with
    | .text s => some s
    | _ => none
  | _ => none

/-- The literal texts of an enumeration in the order of its members and their annotations. -/
def literalStrings (e : Enumeration) : List String :=
  (allAnnotations e).filterMap fun a => literalString? a.argument

/-- An argument with the contents of a literal text left out. -/
def hideString : Argument → Argument
  | .literal v =>
    match v.bare with
    | .text _ => .literal (.text "")
    | _ => .literal v
  | a => a

/-- A member with the contents of the literal texts in its annotations left out. -/
def hideStrings (m : Member) : Member :=
  { m with annotations := m.annotations.map fun a => { a with argument := hideString a.argument } }

end EnumDecl.Source
