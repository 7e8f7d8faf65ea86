import EnumDecl.Decimal

/-!
# What is wrong with a JSON text

A misreading names the problem and the place in the text where it shows: the line and the column,
both counted from one, and the number of characters before it.
-/

namespace EnumDecl.Json

/-- The ways in which a text fails to be JSON. -/
inductive Problem
  | expectedValue
  | expectedName
  | expectedColon
  | expectedComma
  | extraData
  | unterminatedText
  | controlCharacter
  | invalidEscape
  | invalidCodeUnit
  | byteOrderMark
  deriving DecidableEq

/-- A problem and its place. -/
structure Misread where
  problem : Problem
  line : Nat
  column : Nat
  position : Nat
  deriving DecidableEq

/-- The words for a problem. -/
def Problem.words : Problem → String
  | .expectedValue => "Expecting value"
  | .expectedName => "Expecting property name enclosed in double quotes"
  | .expectedColon => "Expecting ':' delimiter"
  | .expectedComma => "Expecting ',' delimiter"
  | .extraData => "Extra data"
  | .unterminatedText => "Unterminated string starting at"
  | .controlCharacter => "Invalid control character at"
  | .invalidEscape => "Invalid \\escape"
  | .invalidCodeUnit => "Invalid \\uXXXX escape"
  | .byteOrderMark => "Unexpected UTF-8 BOM (decode using utf-8-sig)"

/-- The problem and its place in words. -/
def Misread.message (f : Misread) : String :=
  f.problem.words ++ ": line " ++ Decimal.ofNat f.line ++ " column " ++ Decimal.ofNat f.column ++
    " (char " ++ Decimal.ofNat f.position ++ ")"

/-- The misreading of a problem that shows after the given part of a text. -/
def Misread.after (problem : Problem) (before : List Char) : Misread :=
  let lineStart := before.reverse.takeWhile (· != '\n')
  ⟨problem, before.count '\n' + 1, lineStart.length + 1, before.length⟩

end EnumDecl.Json
