import EnumDecl.Value.Basic
import EnumDecl.Binary64.Text
import EnumDecl.Text.Quoted

/-!
# The text of a value

A value is *shown* inside other values and in messages that name it (`shown`): texts in quotes,
lists in square brackets, pairs in round ones, mappings and sets in braces, dates in the form that
builds them. On its own (`plain`) a text stands for itself and a date is written with dashes;
everything else is as it is shown. A collection inside itself is shown as three points in its
brackets.

Neither is available for a value that holds an integer past the digit limit (`isWritable`).
-/

namespace EnumDecl.Value

/-- The text of a truth value. -/
def boolText (b : Bool) : String := if b then "True" else "False"

/-- The text of a collection inside itself. -/
def Kind.repeatedText : Kind → String
  | .list => "[...]"
  | .pair => "(...)"
  | .set => "set(...)"
  | _ => "\x7b...\x7d"

mutual

/-- The text of a value inside the things whose marks are given. -/
def shownIn (around : List Mark) : Value → String
  | .null => "None"
  | .bool b => boolText b
  | .int i => Decimal.ofInt i
  | .float x => x.text
  | .text s => Text.quoted s
  | .bytes bs => Text.quotedBytes bs
  | .date d => d.constructorText
  | .dateTime t => t.constructorText
  | .list xs => "[" ++ shownItems around xs ++ "]"
  | .pair a b => "(" ++ shownIn around a ++ ", " ++ shownIn around b ++ ")"
  | .set [] => "set()"
  | .set (x :: xs) => "\x7b" ++ shownItems around (x :: xs) ++ "\x7d"
  | .mapping es => "\x7b" ++ shownEntries around es ++ "\x7d"
  | .marked m v =>
    if around.contains m && !v.isHashable then v.kind.repeatedText else shownIn (m :: around) v
  | .again _ k => k.repeatedText

/-- The items of a list, separated by commas. -/
def shownItems (around : List Mark) : List Value → String
  | [] => ""
  | [x] => shownIn around x
  | x :: y :: xs => shownIn around x ++ ", " ++ shownItems around (y :: xs)

/-- The entries of a mapping, separated by commas. -/
def shownEntries (around : List Mark) : List (Value × Value) → String
  | [] => ""
  | [(k, v)] => shownIn around k ++ ": " ++ shownIn around v
  | (k, v) :: e :: es =>
    shownIn around k ++ ": " ++ shownIn around v ++ ", " ++ shownEntries around (e :: es)

end

/-- The text of a value inside another one. -/
def shown (v : Value) : String := shownIn [] v

/-- The text of a value on its own. -/
def plain (v : Value) : String :=
  match v.bare with
  | .text s => s
  | .date d => d.text
  | .dateTime t => t.text
  | _ => v.shown

mutual

/-- Tells whether no integer in a value is past the digit limit. -/
def isWritable : Value → Bool
  | .int i => Decimal.isWritable i
  | .list xs => areWritable xs
  | .pair a b => isWritable a && isWritable b
  | .set xs => areWritable xs
  | .mapping es => entriesWritable es
  | .marked _ v => isWritable v
  | _ => true

/-- `isWritable` for the items of a list. -/
def areWritable : List Value → Bool
  | [] => true
  | x :: xs => isWritable x && areWritable xs

/-- `isWritable` for the keys and values of a mapping. -/
def entriesWritable : List (Value × Value) → Bool
  | [] => true
  | (k, v) :: es => isWritable k && isWritable v && entriesWritable es

end

end EnumDecl.Value
