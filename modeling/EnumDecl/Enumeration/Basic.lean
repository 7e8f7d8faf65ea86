import EnumDecl.Event
import EnumDecl.Request

/-!
# Enumerations

An enumeration has a type name, the namespace it is declared in, the value that means a member has
no number, and a policy for clashes: refuse them, or settle them by renaming, with or without a cap
on the number of renames. Its members are listed in the order in which they were stored.

Two indexes stand beside the list and decide about clashes: the members by name, and the values
that were given, which leaves out the one that means there is none. The values are kept in a set,
which has no place for some of them.
-/

namespace EnumDecl

/-- One enumeration while it is built. -/
structure Enumeration where
  name : String
  /-- The namespace the enumeration is declared in; none when empty. -/
  container : Value
  /-- The value of members that have none of their own. -/
  noValue : Value
  /-- Whether clashes of names are settled by renaming; read as a condition. -/
  autoResolve : Value
  /-- The greatest number of renames for one member; nothing where there is no bound. -/
  attemptCap : Value
  members : List Member
  /-- The members by their names. -/
  byName : List (String × Member)
  /-- The set of the values that were given. -/
  values : List Value

/-- What an enumeration is to be: everything but its members. -/
structure Declaration where
  name : Value
  container : Value
  autoResolve : Value := .bool false
  noValue : Value := defaultNoValue
  attemptCap : Value := .null

namespace Enumeration

/-- The enumeration of a declaration, without members. The value that means there is none is one
thing from now on, however many members hold it. -/
def declare (d : Declaration) : Except Fault Enumeration :=
  match d.name.bare with
  | .text text =>
    let name := Identifier.typeName text
    if name = "" then .error (.unusableName text .enumeration)
    else .ok ⟨name, d.container, d.noValue.markedBy .sentinel, d.autoResolve, d.attemptCap,
      [], [], []⟩
  | v => .error (.notText v.kind)

/-- What is reported about a declaration: the change of its name, if there was one. -/
def declarationEvents (d : Declaration) (e : Enumeration) : List Event :=
  match d.name.bare with
  | .text text => if text = e.name then [] else [.sanitized text e.name]
  | _ => []

/-! ## Views -/

/-- How many members there are. -/
def size (e : Enumeration) : Nat := e.members.length

/-- The names of the members in order. -/
def memberNames (e : Enumeration) : List String := e.members.map (·.name)

/-- Tells whether a name is taken. -/
def hasName (e : Enumeration) (name : String) : Bool := e.byName.any fun p => p.1 == name

/-- The member of a name. -/
def member? (e : Enumeration) (name : String) : Option Member :=
  (e.byName.find? fun p => p.1 == name).map (·.2)

/-- Tells whether a value, which need not be a text, is the name of a member. -/
def contains (e : Enumeration) (name : Value) : Except Fault Bool :=
  match name.unhashable? with
  | some kind => .error (.unhashable kind)
  | none =>
    match name.bare with
    | .text s => .ok (e.hasName s)
    | _ => .ok false

/-- The member whose name is a value, which need not be a text. -/
def lookup (e : Enumeration) (name : Value) : Except Fault (Option Member) :=
  match name.unhashable? with
  | some kind => .error (.unhashable kind)
  | none =>
    match name.bare with
    | .text s => .ok (e.member? s)
    | _ => .ok none

/-- Tells whether a value is the one that means there is none. -/
def isNoValue (e : Enumeration) (v : Value) : Bool := v.eqv e.noValue

/-- The name of the file an enumeration is written to. -/
def fileName (e : Enumeration) (ending : String) : String := e.name ++ ending

/-- A short description: the name, the namespace and the number of members. -/
def description (e : Enumeration) : Except Fault String :=
  if e.container.isWritable then
    .ok ("EnumModel(" ++ Text.quoted e.name ++ ", " ++ e.container.shown ++ ", members=" ++
      Decimal.ofNat e.size ++ ")")
  else .error .unwritableNumber

/-! ## Storing a member -/

/-- Tells whether the value of a member is kept among those that were given: it does not mean that
there is none, and a set has a place for it. -/
def isKept (e : Enumeration) (v : Value) : Bool := !e.isNoValue v && v.isHashable

/-- The enumeration with a member put at the end of the list and under its name, and its value
among the others if it can be kept. -/
def record (e : Enumeration) (m : Member) : Enumeration :=
  { e with
    members := e.members ++ [m]
    byName := e.byName ++ [(m.name, m)]
    values := if e.isKept m.value then e.values ++ [m.value] else e.values }

end Enumeration

end EnumDecl
