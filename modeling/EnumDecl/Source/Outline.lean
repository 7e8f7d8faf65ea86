import EnumDecl.Source.Render

/-!
# What a source text says

Rendering does two things in one pass: it spells names, numbers and arguments, which can fail, and
it puts what is spelled on lines, which cannot. The *outline* of an enumeration is what lies
between the two, every text that has been spelled and none of the white space. Laid out, it is the
source text.
-/

namespace EnumDecl.Source

/-- An annotation as it is spelled: the name of its type and its argument. -/
structure AnnotationOutline where
  type : String
  argument : String

/-- A member as it is spelled; it has a number only if one is written. -/
structure MemberOutline where
  annotations : List AnnotationOutline
  name : String
  number : Option String

/-- A whole enumeration as it is spelled; it has a namespace only if one is written. -/
structure Outline where
  container : Option String
  imports : List String
  name : String
  members : List MemberOutline

/-! ## Spelling -/

/-- The outline of an annotation. -/
def annotationOutline (a : Annotation) : Except Fault AnnotationOutline := do
  let argument ← argumentText a.argument
  let type ← nameOf a.type.name
  pure ⟨type, argument⟩

/-- The number of a member that is declared with one. -/
def numberText (noValue : Value) (m : Member) : Except Fault (Option String) :=
  if m.hasExplicitValue noValue then (plainText m.value).map some else .ok none

/-- The outline of a member. -/
def memberOutline (noValue : Value) (m : Member) : Except Fault MemberOutline := do
  let annotations ← m.annotations.mapM annotationOutline
  let number ← numberText noValue m
  pure ⟨annotations, nameText m.name, number⟩

/-- The namespace that an enumeration is declared in, if there is one. -/
def containerText (e : Enumeration) : Except Fault (Option String) :=
  if e.container.isTrue then (plainText e.container).map some else .ok none

/-- The outline of an enumeration. -/
def outline (e : Enumeration) : Except Fault Outline := do
  let container ← containerText e
  let imported ← (imports e).mapM plainText
  let members ← e.members.mapM (memberOutline e.noValue)
  pure ⟨container, imported, nameText e.name, members⟩

/-! ## Laying out -/

/-- The line of an annotation, without its indentation. -/
def AnnotationOutline.text (a : AnnotationOutline) : String :=
  "[" ++ a.type ++ "(" ++ a.argument ++ ")]"

/-- The line of a member's name and number, without its indentation. -/
def MemberOutline.declaration (m : MemberOutline) : String :=
  match m.number with
  | some n => m.name ++ " = " ++ n ++ ","
  | none => m.name ++ ","

/-- The lines of a member, without their indentation. -/
def MemberOutline.texts (m : MemberOutline) : List String :=
  m.annotations.map AnnotationOutline.text ++ [m.declaration]

/-- The lines of all members from some member on; `first` tells that no member stands before
them. -/
def memberOutlineLines (l : Layout) (depth : Nat) (first : Bool) : List MemberOutline → List String
  | [] => []
  | m :: ms =>
    (if !first && l.blankLines then [""] else []) ++ m.texts.map (l.pad depth ++ ·) ++
      memberOutlineLines l depth false ms

/-- The line of an import, without its indentation. -/
def importText (container : String) : String := "using " ++ container ++ ";"

/-- The lines of imports and the empty line after them. -/
def importOutlineLines (l : Layout) (depth : Nat) (imported : List String) : List String :=
  if imported.isEmpty then [] else imported.map (l.pad depth ++ importText ·) ++ [""]

namespace Outline

/-- The lines of the imports and the enumeration at some depth. -/
def bodyLines (o : Outline) (l : Layout) (depth : Nat) : List String :=
  importOutlineLines l depth o.imports ++
    (l.openBlock depth ("public enum " ++ o.name)
      ++ memberOutlineLines l (depth + 1) true o.members ++
      [l.closeBlock depth])

/-- The lines of the source text. -/
def lines (o : Outline) (l : Layout) : List String :=
  match o.container with
  | some c => l.openBlock 0 ("namespace " ++ c) ++ o.bodyLines l 1 ++ [l.closeBlock 0]
  | none => o.bodyLines l 0

/-- The source text. -/
def text (o : Outline) (l : Layout) : String := unlines (o.lines l)

end Outline

end EnumDecl.Source
