import EnumDecl.Value.Text

/-!
# Forms of values

The primitive values, which have a text in every format, and the sorted form of a value. Values
whose mappings have texts as keys, and no key twice, are the same up to the order of entries, and
up to which of their parts are one, if their sorted forms are.
-/

namespace EnumDecl.Value

/-- A value that is no collection and no date, within the digit limit. -/
def isPrimitive : Value → Bool
  | .null => true
  | .bool _ => true
  | .int i => Decimal.isWritable i
  | .float _ => true
  | .text _ => true
  | .marked _ v => v.isPrimitive
  | _ => false

/-- The text of a key that is one. -/
def keyText? : Value × Value → Option String
  | (.text s, _) => some s
  | _ => none

/-- Puts an entry before the first one whose key is not smaller. -/
def insertSorted (e : Value × Value) : List (Value × Value) → List (Value × Value)
  | [] => [e]
  | f :: fs =>
    if (keyText? e).getD "" ≤ (keyText? f).getD "" then e :: f :: fs else f :: insertSorted e fs

mutual

/-- A value without marks and with the entries of all mappings in the order of their keys. -/
def sorted : Value → Value
  | .list xs => .list (sortedItems xs)
  | .mapping es => .mapping (sortedEntries es)
  | .marked _ v => sorted v
  | v => v

/-- `sorted` for the items of a list. -/
def sortedItems : List Value → List Value
  | [] => []
  | x :: xs => sorted x :: sortedItems xs

/-- The entries in the order of their keys, with their values sorted. -/
def sortedEntries : List (Value × Value) → List (Value × Value)
  | [] => []
  | (k, v) :: es => insertSorted (k, sorted v) (sortedEntries es)

end

end EnumDecl.Value
