import EnumDecl.Enumeration.Add

/-!
# A sample enumeration

A small enumeration of colours that shows what names are made of texts, a clash settled by
renaming, members with and without numbers, and annotations of both kinds of argument.
-/

namespace EnumDecl.Sample

/-- The type of descriptions. -/
def descriptionType : TypeReference := ⟨.text "Description", .text "System.ComponentModel"⟩

/-- The type of marks for what is out of use. -/
def obsoleteType : TypeReference := ⟨.text "Obsolete", .text "System"⟩

/-- A description by a text. -/
def describedAs (text : String) : Annotation := ⟨descriptionType, .literal (.text text)⟩

/-- The colours as they are asked for. -/
def colours : List Entry := [
  ⟨.text "Red", .int 0, [describedAs "Bright red"]⟩,
  ⟨.text "Green!", .int 1, []⟩,
  ⟨.text "Red", .int 2, [describedAs "Dark red", ⟨obsoleteType, .literal (.bool true)⟩]⟩,
  ⟨.text "Blue", .null, []⟩,
  ⟨.text "50% Grey", .int 4, [⟨descriptionType, .constant (.text "GreyLabel") (.text "Labels")⟩]⟩]

/-- The namespace of the sample unless another one is asked for. -/
def defaultNamespace : Value := .text "My.Gen"

/-- What the sample is declared as. -/
def declaration (container : Value) : Declaration :=
  { name := .text "2Colors!", container := container, autoResolve := .bool true }

/-- The sample enumeration in a namespace, with what was reported while it was built. -/
def build (container : Value) : Except Fault (Enumeration × List Event) := do
  let d := declaration container
  let e ← Enumeration.declare d
  let r := e.run (colours.map Entry.request)
  pure (r.enumeration, Enumeration.declarationEvents d e ++ r.events)

end EnumDecl.Sample
