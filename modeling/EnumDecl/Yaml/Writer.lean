import EnumDecl.Text.Base64
import EnumDecl.Yaml.Reference
import EnumDecl.Yaml.Scalar

/-!
# Writing YAML

A value in block style: an entry of a mapping or an item of a list to a line, two spaces deeper for
what is inside, except that a list under a key is not indented. Empty lists and mappings are
written as a pair of brackets. A key that is empty, long or of several lines gets a question mark
and its value a line of its own. Bytes are a block of base 64 and sets are mappings to nothing,
each with its tag. A collection or date that stands in several places is written where it comes
first, with an anchor, and elsewhere as an alias of that. The text is ASCII.

Collections are written without the white space in front of their first line; where that line
begins is up to what holds them.
-/

namespace EnumDecl.Yaml

/-- The written form of the names that are no numbers. -/
def numberForm : Binary64.WrittenForm :=
  { Binary64.plainForm with nan := ".nan", infinity := ".inf" }

/-- Puts `.0` before an exponent where there is no point, without which it would read as a text. -/
def pointBeforeExponent (cs : List Char) : List Char :=
  if cs.contains '.' then cs
  else
    match cs.dropWhile (· != 'e') with
    | [] => cs
    | rest => cs.takeWhile (· != 'e') ++ '.' :: '0' :: rest

/-- A floating point number. -/
def floatChars (x : Binary64) : List Char := pointBeforeExponent (x.textIn numberForm).toList

/-- How deep the inside of a collection is. -/
def indentStep : Nat := 2

/-- A key must be shorter than this, its tag counted, to stand on the line of its value. -/
def keyLimit : Nat := 128

/-- The name of the anchor of a thing. -/
def anchorName : Mark → List Char
  | .part n => 'i' :: 'd' :: (Decimal.padded 3 n).toList
  | _ => ['i', 'd']

/-- An anchor. -/
def anchorChars (m : Mark) : List Char := '&' :: anchorName m

/-- An alias. -/
def aliasChars (m : Mark) : List Char := '*' :: anchorName m

/-- The tag of bytes. -/
def bytesTag : List Char := ['!', '!', 'b', 'i', 'n', 'a', 'r', 'y']

/-- The tag of a set. -/
def setTag : List Char := ['!', '!', 's', 'e', 't']

/-- The length of the anchor and the tag of a key. -/
def propertyLength : Value → Nat
  | .null => 6
  | .bool _ => 6
  | .float _ => 7
  | .date _ => 11
  | .dateTime _ => 11
  | .marked m v => (anchorName m).length + propertyLength v
  | _ => 5

/-- The lines of a block of text, each indented so far; the line feed after the last one is left to
what follows. -/
def blockLinesChars (indent : Nat) (text : List Char) : List Char :=
  (Text.pieces '\n' text).dropLast.flatMap fun line => newLine indent ++ line

/-- Bytes after their tag: a block, or a pair of quotes if there are none. -/
def bytesChars (p : Place) (bytes : List UInt8) : List Char :=
  bytesTag ++ ' ' ::
    if bytes.isEmpty then ['\x22', '\x22']
    else '|' :: blockLinesChars p.indent (Text.Base64.encode bytes)

/-- The characters of a value that is written plain, whatever it is. -/
def plainForms : Value → List Char
  | .null => ['n', 'u', 'l', 'l']
  | .bool true => ['t', 'r', 'u', 'e']
  | .bool false => ['f', 'a', 'l', 's', 'e']
  | .int i => Decimal.intDigits i
  | .float x => floatChars x
  | .date d => d.text.toList
  | .dateTime t => t.text.toList
  | .text s => s.toList
  | .bytes bs => Text.Base64.encode bs
  | .list _ => ['[', ']']
  | .pair _ _ => ['[', ']']
  | .set _ => ['\x7b', '\x7d']
  | .mapping _ => ['\x7b', '\x7d']
  | .marked _ v => plainForms v
  | .again m _ => aliasChars m

/-- A value that is no collection, an empty one, or an alias. -/
def scalarChars (p : Place) (asKey : Bool) : Value → List Char
  | .text s => textChars p asKey s.toList
  | .bytes bs => bytesChars p bs
  | .set xs => setTag ++ ' ' :: plainForms (.set xs)
  | .marked m v =>
    let anchor := anchorChars m ++ [' ']
    anchor ++ scalarChars { p with column := p.column + anchor.length } asKey v
  | v => plainChars p (plainForms v)

/-- Tells whether a key may stand on the line of its value. -/
def isSimpleKey (k : Value) : Bool :=
  let cs := plainForms k
  propertyLength k + cs.length < keyLimit && !cs.isEmpty && !cs.any isFeed

/-- Where a scalar stands that begins in some column inside a collection. -/
def inside (indent column : Nat) : Place := ⟨column, indent + indentStep, true⟩

/-- A key, with its colon or, behind a question mark, with the line feed and the colon after it. -/
def keyChars (indent : Nat) (k : Value) : List Char :=
  if isSimpleKey k then scalarChars ⟨indent, indent + indentStep, false⟩ true k ++ [':']
  else
    '?' :: ' ' :: scalarChars (inside indent (indent + 2)) false k ++ newLine indent ++ [':']

/-- The column after a key and its colon. -/
def afterKey (indent : Nat) (k : Value) : Nat :=
  if isSimpleKey k then indent + (keyChars indent k).length else indent + 1

/-- The elements of a set at some depth, each a key with nothing under it. -/
def elementsChars (indent : Nat) : List Value → List Char
  | [] => []
  | x :: xs =>
    keyChars indent x ++ ' ' :: plainForms .null ++ (if xs.isEmpty then [] else newLine indent) ++
      elementsChars indent xs

/-- The two items of a pair at some depth from what stands after their dashes. -/
def pairOf (indent : Nat) (first second : List Char) : List Char :=
  '-' :: ' ' :: first ++ newLine indent ++ '-' :: ' ' :: second

mutual

/-- A value after a key. -/
def valueChars (indent : Nat) (k : Value) : Value → List Char
  | .list (x :: xs) =>
    -- a list under a key is not indented
    if isSimpleKey k then newLine indent ++ itemsChars indent (x :: xs)
    else ' ' :: itemsChars (indent + indentStep) (x :: xs)
  | .pair a b =>
    if isSimpleKey k then newLine indent ++ pairOf indent (itemChars indent a) (itemChars indent b)
    else
      ' ' :: pairOf (indent + indentStep) (itemChars (indent + indentStep) a)
        (itemChars (indent + indentStep) b)
  | .mapping (e :: es) =>
    (if isSimpleKey k then newLine (indent + indentStep) else [' ']) ++
      entriesChars (indent + indentStep) (e :: es)
  | .set (x :: xs) =>
    ' ' :: setTag ++ newLine (indent + indentStep) ++ elementsChars (indent + indentStep) (x :: xs)
  -- behind an anchor a collection begins on the next line
  | .marked m (.list (x :: xs)) =>
    ' ' :: anchorChars m ++ newLine indent ++ itemsChars indent (x :: xs)
  | .marked m (.mapping (e :: es)) =>
    ' ' :: anchorChars m ++ newLine (indent + indentStep)
      ++ entriesChars (indent + indentStep) (e :: es)
  | .marked m (.set (x :: xs)) =>
    ' ' :: anchorChars m ++ ' ' :: setTag ++ newLine (indent + indentStep) ++
      elementsChars (indent + indentStep) (x :: xs)
  | v => ' ' :: scalarChars (inside indent (afterKey indent k + 1)) false v

/-- The value of an item after its dash. -/
def itemChars (indent : Nat) : Value → List Char
  | .list (x :: xs) => itemsChars (indent + indentStep) (x :: xs)
  | .pair a b =>
    pairOf (indent + indentStep) (itemChars (indent + indentStep) a)
      (itemChars (indent + indentStep) b)
  | .mapping (e :: es) => entriesChars (indent + indentStep) (e :: es)
  | .set (x :: xs) =>
    setTag ++ newLine (indent + indentStep) ++ elementsChars (indent + indentStep) (x :: xs)
  | .marked m (.list (x :: xs)) =>
    anchorChars m ++ newLine (indent + indentStep) ++ itemsChars (indent + indentStep) (x :: xs)
  | .marked m (.mapping (e :: es)) =>
    anchorChars m ++ newLine (indent + indentStep) ++ entriesChars (indent + indentStep) (e :: es)
  | .marked m (.set (x :: xs)) =>
    anchorChars m ++ ' ' :: setTag ++ newLine (indent + indentStep) ++
      elementsChars (indent + indentStep) (x :: xs)
  | v => scalarChars (inside indent (indent + 2)) false v

/-- The items of a list at some depth. -/
def itemsChars (indent : Nat) : List Value → List Char
  | [] => []
  | x :: xs =>
    '-' :: ' ' :: itemChars indent x ++ (if xs.isEmpty then [] else newLine indent) ++
      itemsChars indent xs

/-- The entries of a mapping at some depth. -/
def entriesChars (indent : Nat) : List (Value × Value) → List Char
  | [] => []
  | (k, v) :: es =>
    keyChars indent k ++ valueChars indent k v ++ (if es.isEmpty then [] else newLine indent) ++
      entriesChars indent es

end

/-- A value as a document. -/
def documentChars : Value → List Char
  | .list (x :: xs) => itemsChars 0 (x :: xs) ++ ['\n']
  | .pair a b => pairOf 0 (itemChars 0 a) (itemChars 0 b) ++ ['\n']
  | .mapping (e :: es) => entriesChars 0 (e :: es) ++ ['\n']
  | .set (x :: xs) => setTag ++ newLine 0 ++ elementsChars 0 (x :: xs) ++ ['\n']
  | .marked m (.list (x :: xs)) => anchorChars m ++ newLine 0 ++ itemsChars 0 (x :: xs) ++ ['\n']
  | .marked m (.mapping (e :: es)) =>
    anchorChars m ++ newLine 0 ++ entriesChars 0 (e :: es) ++ ['\n']
  | v => scalarChars ⟨0, indentStep, true⟩ false v ++ ['\n']

/-- The YAML text of a value. -/
def write (v : Value) : Except Fault String :=
  let referenced := withReferences v
  if referenced.isWritable then .ok (String.ofList (documentChars referenced))
  else .error .unwritableNumber

end EnumDecl.Yaml
