import EnumDecl.Source.Scan

/-!
# Reading an argument

What an argument of an annotation is shows in the way it begins: a quote is in front of a text, a
digit or a sign in front of a number, and what begins in another way is a word that stands for a
literal, or else a constant, whose owner is in front of a point. None of the words is a name.
-/

namespace EnumDecl.Source

/-- What an argument says. A constant is an identifier, and so is its owner if it has one. -/
inductive Reading
  | literal (value : Value)
  | constant (name : List Char)
  | owned (owner name : List Char)

/-- The literals that are words. -/
def wordLiterals : List (List Char × Value) := [
  ("null".toList, .null), ("true".toList, .bool true), ("false".toList, .bool false),
  ("double.NaN".toList, .float .nan), ("double.PositiveInfinity".toList, .float (.infinity false)),
  ("double.NegativeInfinity".toList, .float (.infinity true))]

/-- The literal that a word stands for. -/
def readWord? (cs : List Char) : Option Value := (wordLiterals.find? fun w => w.1 == cs).map (·.2)

/-- The number after a sign or without one: an integer if there is nothing but digits. -/
def readNumber? (negative : Bool) (cs : List Char) : Option Value :=
  if cs.all Char.isDigit then
    some (.int (if negative then -Decimal.value cs else Decimal.value cs))
  else (Binary64.readUnsigned? negative cs).map .float

/-- The text of a literal with nothing behind it. -/
def readText? (cs : List Char) : Option Value :=
  match readString? cs with
  | some (text, []) => some (.text (String.ofList text))
  | _ => none

/-- The constant that is named, with its owner in front of a point. -/
def readConstant (cs : List Char) : Reading :=
  match cs.dropWhile (· != '.') with
  | [] => .constant (nameOfToken cs)
  | _ :: name => .owned (nameOfToken (cs.takeWhile (· != '.'))) (nameOfToken name)

/-- What an argument says, unless it is none. -/
def readArgument? (cs : List Char) : Option Reading :=
  match readWord? cs with
  | some v => some (.literal v)
  | none =>
    match cs with
    | [] => none
    | c :: rest =>
      if c = '\x22' then (readText? cs).map .literal
      else if c = '-' then (readNumber? true rest).map .literal
      else if c.isDigit then (readNumber? false cs).map .literal
      else some (readConstant cs)

end EnumDecl.Source
