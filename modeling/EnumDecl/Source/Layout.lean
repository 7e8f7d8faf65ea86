import EnumDecl.Fault

/-!
# Layout

The choices that change the white space of source text and nothing else: where an opening brace
stands, whether an empty line separates members, and what a line is indented with.
-/

namespace EnumDecl.Source

/-- Where an opening brace stands. -/
inductive BraceStyle
  | /-- On a line of its own. -/
    ownLine
  | /-- At the end of the line that it opens. -/
    endOfLine
  deriving DecidableEq

/-- The name of a brace style. -/
def BraceStyle.name : BraceStyle → String
  | .ownLine => "c"
  | .endOfLine => "block"

/-- All brace styles in order. -/
def BraceStyle.all : List BraceStyle := [.ownLine, .endOfLine]

/-- The brace style of a name. -/
def BraceStyle.ofValue (v : Value) : Except Fault BraceStyle :=
  match BraceStyle.all.find? fun b => v.eqv (.text b.name) with
  | some b => .ok b
  | none => .error (Fault.showing v (.unknownBraceStyle v))

/-- The layout of a source text. -/
structure Layout where
  braces : BraceStyle := .ownLine
  blankLines : Bool := false
  indent : String := "    "

/-- The white space in front of a line at some depth. -/
def Layout.pad (l : Layout) (depth : Nat) : String := String.join (List.replicate depth l.indent)

/-- The lines that open a block. -/
def Layout.openBlock (l : Layout) (depth : Nat) (header : String) : List String :=
  match l.braces with
  | .endOfLine => [l.pad depth ++ header ++ " \x7b"]
  | .ownLine => [l.pad depth ++ header, l.pad depth ++ "\x7b"]

/-- The line that closes a block. -/
def Layout.closeBlock (l : Layout) (depth : Nat) : String := l.pad depth ++ "\x7d"

end EnumDecl.Source
