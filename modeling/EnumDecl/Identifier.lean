import EnumDecl.Decimal
import EnumDecl.Text.Ending

/-!
# Identifiers

Two rules turn an arbitrary text into a name, and a third makes a taken name into the next one.

* A *type name* keeps letters, digits and underscores, turns every run of other characters into one
  underscore and then drops the digits and underscores it starts with.
* A *member name* keeps letters and digits only, so that a run of underscores becomes one as well,
  and is given an underscore in front when it would start with a digit.
* The *next name* counts up a numeric suffix after an underscore, or appends `_1`.

Letters and digits are those of ASCII throughout. The suffix rule and the identifier test look at a
text up to its last line feed when it ends in one.
-/

namespace EnumDecl.Identifier

/-- Letters, digits and the underscore. -/
def isWord (c : Char) : Bool := c.isAlphanum || c == '_'

/--
Keeps the characters of a class and turns each run of others into one underscore; `inRun` tells
that the underscore of the current run is already written.
-/
def collapse (keep : Char → Bool) (inRun : Bool) : List Char → List Char
  | [] => []
  | c :: cs =>
    if keep c then c :: collapse keep false cs
    else if inRun then collapse keep true cs
    else '_' :: collapse keep true cs

/-- The type name made of a text, empty when the text has no letter. -/
def typeChars (cs : List Char) : List Char :=
  (collapse isWord false cs).dropWhile fun c => c.isDigit || c == '_'

/-- Puts an underscore before a digit at the front. -/
def guardDigit : List Char → List Char
  | [] => []
  | c :: cs => if c.isDigit then '_' :: c :: cs else c :: cs

/-- The member name made of a text, empty only for the empty text. -/
def memberChars (cs : List Char) : List Char :=
  guardDigit (collapse Char.isAlphanum false cs)

/-- The type name made of a text. -/
def typeName (text : String) : String := String.ofList (typeChars text.toList)

/-- The member name made of a text. -/
def memberName (text : String) : String := String.ofList (memberChars text.toList)

/-! ## The numeric suffix -/

/-- Splits a text into the part up to an underscore and the digits that end it. -/
def splitSuffix? (cs : List Char) : Option (List Char × List Char) :=
  let back := (Text.dropFinalBreak cs).reverse
  let digits := back.takeWhile Char.isDigit
  let stem := back.dropWhile Char.isDigit
  if digits.isEmpty || stem.head? != some '_' then none
  else some (stem.reverse, digits.reverse)

/-- Why a numeric suffix cannot be counted up. -/
inductive SuffixFault
  | /-- The suffix has more digits than are read. -/
    unreadable (digits : Nat)
  | /-- The next number has more digits than are written. -/
    unwritable
  deriving DecidableEq, Repr

/-- Counts up the suffix after the last underscore, or appends the first one. -/
def nextChars (cs : List Char) : Except SuffixFault (List Char) :=
  match splitSuffix? cs with
  | none => .ok (cs ++ ['_', '1'])
  | some (stem, digits) =>
    if !Decimal.isReadable digits then .error (.unreadable digits.length)
    else
      let next := Decimal.value digits + 1
      if !Decimal.isWritable next then .error .unwritable
      else .ok (stem ++ Decimal.digits next)

/-- The next name after a text: `Red`, `Red_1`, `Red_2`. -/
def nextName (text : String) : Except SuffixFault String :=
  (nextChars text.toList).map String.ofList

/-! ## The identifier test -/

/-- A letter or underscore, then letters, digits and underscores. -/
def isIdentifierChars : List Char → Bool
  | [] => false
  | c :: cs => (c.isAlpha || c == '_') && cs.all isWord

/-- Tells whether a text, apart from one line feed at its end, is an identifier. -/
def isIdentifier (text : String) : Bool := isIdentifierChars (Text.dropFinalBreak text.toList)

end EnumDecl.Identifier
