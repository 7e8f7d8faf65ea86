import EnumDecl.Value.Basic

/-!
# Annotations and members

An annotation has a type, given by a short name and the namespace to import it from, and one
argument: a literal value or a named constant, which may belong to a type. An argument can also be
a bare value that is neither; it is kept, but has no dump and no rendering.

An `Entry` says what a member is to be. A `Member` is what an enumeration stores of it, its name
being a text by then.
-/

namespace EnumDecl

/-- The type of an annotation. -/
structure TypeReference where
  name : Value
  /-- What is imported for the type; nothing when empty. -/
  container : Value

/-- The argument of an annotation. -/
inductive Argument
  | /-- A primitive value. -/
    literal (value : Value)
  | /-- A named constant, of a type if it has an owner. -/
    constant (name owner : Value)
  | /-- A value that is no argument. -/
    bare (value : Value)

/-- Tells whether an argument is a literal or a constant. -/
def Argument.isProper : Argument → Bool
  | .bare _ => false
  | _ => true

/-- Metadata of a member. -/
structure Annotation where
  type : TypeReference
  argument : Argument

/-- What a member is to be: its name before it is made an identifier, a value, which may be
missing, and annotations. -/
structure Entry where
  name : Value
  value : Value
  annotations : List Annotation

/-- A member of an enumeration. -/
structure Member where
  name : String
  value : Value
  annotations : List Annotation

/-- The entry that a member stands for. -/
def Member.toEntry (m : Member) : Entry := ⟨.text m.name, m.value, m.annotations⟩

/-- The value that means there is none, unless an enumeration says otherwise. -/
def defaultNoValue : Value := .int (-1)

/-- Tells whether a member is declared with a number. -/
def Member.hasExplicitValue (m : Member) (noValue : Value) : Bool := !m.value.eqv noValue

/-! ## Equality

Objects are equal when they are of the same form and each field of one is the same as that of the
other,
as the items of two lists are: one thing with it or equal to it. -/

/-- Equality of type references. -/
def TypeReference.eqv (a b : TypeReference) : Bool :=
  a.name.same b.name && a.container.same b.container

/-- Equality of arguments: of the same form with the same parts. -/
def Argument.eqv : Argument → Argument → Bool
  | .literal v, .literal w => v.same w
  | .constant n o, .constant p q => n.same p && o.same q
  | .bare v, .bare w => v.eqv w
  | _, _ => false

/-- Equality of annotations. -/
def Annotation.eqv (a b : Annotation) : Bool := a.type.eqv b.type && a.argument.eqv b.argument

/-- Equality of lists of annotations. -/
def Annotation.eqvList : List Annotation → List Annotation → Bool
  | [], [] => true
  | a :: as, b :: bs => a.eqv b && eqvList as bs
  | _, _ => false

/-- Equality of entries. -/
def Entry.eqv (a b : Entry) : Bool :=
  a.name.same b.name && a.value.same b.value && Annotation.eqvList a.annotations b.annotations

end EnumDecl
