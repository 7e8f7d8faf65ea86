import EnumDecl.Binary64.Basic
import EnumDecl.Calendar

/-!
# Values

Fields of an enumeration are not restricted to one type: a member's value, a namespace or the
argument of an annotation may be anything a document can hold. A `Value` is such a thing. Mappings
keep the order in which their keys were first given.

Two values are *equal* (`eqv`) when they stand for the same thing: the truth values count as zero
and one, an integer equals a floating point number exactly when their mathematical values agree,
not-a-number equals nothing, and mappings and sets are compared without regard to order.

One thing may stand in several places. A `Mark` tells such a thing from all others, so that what is
*one* (`isOne`) can be told from what is merely equal. Marks matter in three ways: a not-a-number
is found again where it is the same one (`same`), a collection equals itself without a look inside,
and a text in YAML writes a thing once and refers to it afterwards. A thing that holds itself is
unfolded to some depth and cut off there (`again`).
-/

namespace EnumDecl

/-- What tells one thing from all others, however equal they are. -/
inductive Mark
  | /-- The not-a-number that a text has for its name. -/
    constant
  | /-- The value that means there is none. -/
    sentinel
  | /-- A part of a text by its number. -/
    part (n : Nat)
  deriving DecidableEq

/-- The kinds of values. -/
inductive Value.Kind
  | null | bool | int | float | text | bytes | date | dateTime | list | pair | set | mapping
  deriving DecidableEq

/-- Anything that a field may hold. -/
inductive Value
  | null
  | bool (b : Bool)
  | int (i : Int)
  | float (x : Binary64)
  | text (s : String)
  | bytes (data : List UInt8)
  | date (d : Calendar.Date)
  | dateTime (t : Calendar.DateTime)
  | list (items : List Value)
  | pair (first second : Value)
  | set (items : List Value)
  | mapping (entries : List (Value × Value))
  | /-- A value that may stand in several places. -/
    marked (mark : Mark) (value : Value)
  | /-- A collection inside itself, where its unfolding is cut off. -/
    again (mark : Mark) (kind : Value.Kind)

instance : Inhabited Value := ⟨.null⟩

namespace Value

/-- A value without the mark on it. -/
def bare : Value → Value
  | .marked _ v => v.bare
  | v => v

/-- The mark on a value. -/
def mark? : Value → Option Mark
  | .marked m _ => some m
  | .again m _ => some m
  | _ => none

/-- The kind of a value. -/
def kind : Value → Kind
  | .null => .null
  | .bool _ => .bool
  | .int _ => .int
  | .float _ => .float
  | .text _ => .text
  | .bytes _ => .bytes
  | .date _ => .date
  | .dateTime _ => .dateTime
  | .list _ => .list
  | .pair _ _ => .pair
  | .set _ => .set
  | .mapping _ => .mapping
  | .marked _ v => v.kind
  | .again _ k => k

/-- The name of a kind in messages. -/
def Kind.name : Kind → String
  | .null => "NoneType"
  | .bool => "bool"
  | .int => "int"
  | .float => "float"
  | .text => "str"
  | .bytes => "bytes"
  | .date => "datetime.date"
  | .dateTime => "datetime.datetime"
  | .list => "list"
  | .pair => "tuple"
  | .set => "set"
  | .mapping => "dict"

/-- The name of a kind without the part before its point. -/
def Kind.shortName : Kind → String
  | .date => "date"
  | .dateTime => "datetime"
  | k => k.name

/-- The integer a truth value counts as. -/
def ofBool (b : Bool) : Int := if b then 1 else 0

/-- Lists, sets and mappings can be changed by their owner and so cannot be kept in a set. -/
def Kind.isHashable : Kind → Bool
  | .list => false
  | .set => false
  | .mapping => false
  | _ => true

/-- The kind of the part of a value that keeps it out of sets, if there is one. A pair can be kept
in a set when both its parts can. -/
def unhashable? : Value → Option Kind
  | .list _ => some .list
  | .set _ => some .set
  | .mapping _ => some .mapping
  | .pair a b => a.unhashable?.or b.unhashable?
  | .marked _ v => v.unhashable?
  | .again _ k => if k.isHashable then none else some k
  | _ => none

/-- Tells whether a value can be kept in a set. -/
def isHashable (v : Value) : Bool := v.unhashable?.isNone

/-- Tells whether a value is a set. A set cannot be kept in another one, but can be asked about. -/
def isSet (v : Value) : Bool := v.kind == .set

/-- Tells whether a value has no items to be taken one after another. -/
def Kind.isSingle : Kind → Bool
  | .bool => true
  | .int => true
  | .float => true
  | .date => true
  | .dateTime => true
  | _ => false

/-- Collections and dates are things of their own; all other values are what they say and no more.
A pair is part of the one list that it stands in. -/
def Kind.hasIdentity : Kind → Bool
  | .date => true
  | .dateTime => true
  | .list => true
  | .set => true
  | .mapping => true
  | _ => false

/-- What counts as true in a condition: all but nothing, zero and the empty. -/
def isTrue : Value → Bool
  | .null => false
  | .bool b => b
  | .int i => i != 0
  | .float x => !x.isZero
  | .text s => !s.isEmpty
  | .bytes bs => !bs.isEmpty
  | .date _ => true
  | .dateTime _ => true
  | .list xs => !xs.isEmpty
  | .pair _ _ => true
  | .set xs => !xs.isEmpty
  | .mapping es => !es.isEmpty
  | .marked _ v => v.isTrue
  | .again _ _ => true

/-- Tells whether a value is not-a-number. -/
def isNan : Value → Bool
  | .float .nan => true
  | .marked _ v => v.isNan
  | _ => false

/-- Puts a mark on a value that has none and is a thing of its own or not-a-number, so that it is
one wherever it stands from now on. -/
def markedBy (mark : Mark) (v : Value) : Value :=
  if v.mark?.isNone && (v.kind.hasIdentity || v.isNan) then .marked mark v else v

/-! ## Equality -/

/-- Equality of values that hold no others. -/
def eqvAtom : Value → Value → Bool
  | .null, .null => true
  | .bool a, .bool b => a == b
  | .bool a, .int j => ofBool a == j
  | .bool a, .float y => y.eqvInt (ofBool a)
  | .int i, .bool b => i == ofBool b
  | .int i, .int j => i == j
  | .int i, .float y => y.eqvInt i
  | .float x, .bool b => x.eqvInt (ofBool b)
  | .float x, .int j => x.eqvInt j
  | .float x, .float y => x.eqv y
  | .text s, .text t => s == t
  | .bytes a, .bytes b => a == b
  | .date a, .date b => a == b
  | .dateTime a, .dateTime b => a.eqv b
  | _, _ => false

/-- Tells whether two values are one thing and not only like each other. This matters for
not-a-number and for collections; of all other values those that are one are equal as well. -/
def isOne (a b : Value) : Bool :=
  (match a.mark?, b.mark? with
    | some m, some n => m == n
    | _, _ => false) &&
    ((a.isNan && b.isNan) || (!a.isHashable && !b.isHashable))

mutual

/-- Tells whether two values have equal contents. -/
def isLike : Value → Value → Bool
  | .marked _ v, y => isLike v y
  | .again _ _, _ => false
  | .list xs, y =>
    match y.bare with
    | .list ys => sameItems xs ys
    | _ => false
  | .pair a b, y =>
    match y.bare with
    | .pair c d => (isOne a c || isLike a c) && (isOne b d || isLike b d)
    | _ => false
  | .set xs, y =>
    match y.bare with
    | .set ys => xs.length == ys.length && sameElements xs ys
    | _ => false
  | .mapping xs, y =>
    match y.bare with
    | .mapping ys => xs.length == ys.length && sameEntries xs ys
    | _ => false
  | x, y => eqvAtom x y.bare

/-- Tells whether items are one or alike, one by one. -/
def sameItems : List Value → List Value → Bool
  | [], [] => true
  | x :: xs, y :: ys => (isOne x y || isLike x y) && sameItems xs ys
  | _, _ => false

/-- Tells whether each item is one with or like some other. -/
def sameElements : List Value → List Value → Bool
  | [], _ => true
  | x :: xs, ys => ys.any (fun y => isOne x y || isLike x y) && sameElements xs ys

/-- Tells whether each entry has one with the same key and the same value among others. -/
def sameEntries : List (Value × Value) → List (Value × Value) → Bool
  | [], _ => true
  | (k, v) :: xs, ys =>
    ys.any (fun e => (isOne k e.1 || isLike k e.1) && (isOne v e.2 || isLike v e.2)) &&
      sameEntries xs ys

end

/-- Equality of values: a collection that is one with another is equal to it, not-a-number never
is. -/
def eqv (a b : Value) : Bool := (isOne a b && !a.isNan) || isLike a b

/-- Whether two values count as the same in a collection: they are one or equal. -/
def same (a b : Value) : Bool := isOne a b || isLike a b

/-! ## Mappings -/

/-- The value under a key in a list of entries. -/
def lookup (key : Value) (entries : List (Value × Value)) : Option Value :=
  (entries.find? fun e => e.1.same key).map (·.2)

/-- Puts a value under a key: the same key keeps its place and spelling, a new one comes last. -/
def insert (key value : Value) : List (Value × Value) → List (Value × Value)
  | [] => [(key, value)]
  | e :: es => if e.1.same key then (e.1, value) :: es else e :: insert key value es

/-- A mapping with text keys. -/
def object (entries : List (String × Value)) : Value :=
  .mapping (entries.map fun e => (.text e.1, e.2))

end Value

end EnumDecl
