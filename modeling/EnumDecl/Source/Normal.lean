import EnumDecl.Source.Render
import EnumDecl.Text.Split

/-!
# Source text apart from its layout

The normal form of a source text forgets what a layout chooses: the white space in front of lines,
empty lines, and whether an opening brace stands on a line of its own.
-/

namespace EnumDecl.Source

/-- The white space of an indentation. -/
def isIndent (c : Char) : Bool := c == ' ' || c == '\t'

/-- Tells whether a layout is indented with spaces and tabs. -/
def Layout.IsBlank (l : Layout) : Prop := ∀ c ∈ l.indent.toList, isIndent c = true

/-- Lines after a line, with each brace that stands on a line of its own put behind the line before
it. -/
def joinBraces (before : List Char) : List (List Char) → List (List Char)
  | [] => [before]
  | line :: rest =>
    if line = ['\x7b'] then joinBraces (before ++ [' ', '\x7b']) rest
    else before :: joinBraces line rest

/-- Lines with each brace that stands on a line of its own put behind the line before it. -/
def joinedLines : List (List Char) → List (List Char)
  | [] => []
  | line :: rest => joinBraces line rest

/-- The lines of a text without the white space in front of them and without the empty ones. -/
def bareLines (cs : List Char) : List (List Char) :=
  ((Text.pieces '\n' cs).map fun line => line.dropWhile isIndent).filter fun line => !line.isEmpty

/-- The lines of a text apart from its layout. -/
def normalLines (cs : List Char) : List (List Char) := joinedLines (bareLines cs)

end EnumDecl.Source
