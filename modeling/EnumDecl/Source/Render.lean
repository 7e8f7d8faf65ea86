import EnumDecl.Enumeration.Basic
import EnumDecl.Source.Layout
import EnumDecl.Source.Literal

/-!
# Rendering an enumeration

The source text is a list of lines: the namespace if there is one, a `using` line for each
namespace that an annotation's type is imported from, in the order of first use, and the
enumeration with its members. A member is its annotations, one on a line, and its name, with a
number where it has one.
-/

namespace EnumDecl.Source

/-- The text of a value on its own, unless it holds an integer past the digit limit. -/
def plainText (v : Value) : Except Fault String :=
  if v.isWritable then .ok v.plain else .error .unwritableNumber

/-- The namespaces to import for some annotations after those that are imported already. -/
def importsAfter (seen : List Value) : List Annotation → List Value
  | [] => seen
  | a :: as =>
    let container := a.type.container
    if container.isTrue && !seen.any (fun s => s.same container) then
      importsAfter (seen ++ [container]) as
    else importsAfter seen as

/-- All annotations of an enumeration in order. -/
def allAnnotations (e : Enumeration) : List Annotation := e.members.flatMap (·.annotations)

/-- The namespaces that an enumeration's annotations are imported from, in order of first use. -/
def imports (e : Enumeration) : List Value := importsAfter [] (allAnnotations e)

/-- The line of an annotation, without its indentation. -/
def annotationText (a : Annotation) : Except Fault String := do
  let argument ← argumentText a.argument
  let name ← nameOf a.type.name
  pure ("[" ++ name ++ "(" ++ argument ++ ")]")

/-- The line of a member's name and number, without its indentation. -/
def declarationText (noValue : Value) (m : Member) : Except Fault String :=
  if m.hasExplicitValue noValue then do
    pure (nameText m.name ++ " = " ++ (← plainText m.value) ++ ",")
  else .ok (nameText m.name ++ ",")

/-- The lines of a member, without their indentation. -/
def memberTexts (noValue : Value) (m : Member) : Except Fault (List String) := do
  let annotations ← m.annotations.mapM annotationText
  pure (annotations ++ [← declarationText noValue m])

/-- The lines of all members from some member on; `first` tells that no member stands before
them. -/
def memberLines (e : Enumeration) (l : Layout) (depth : Nat) (first : Bool) :
    List Member → Except Fault (List String)
  | [] => .ok []
  | m :: ms => do
    let texts ← memberTexts e.noValue m
    let rest ← memberLines e l depth false ms
    -- an empty line separates members, so none stands before the first
    let gap := if !first && l.blankLines then [""] else []
    pure (gap ++ texts.map (l.pad depth ++ ·) ++ rest)

/-- The lines of the imports and the empty line after them. -/
def importLines (e : Enumeration) (l : Layout) (depth : Nat) : Except Fault (List String) := do
  let lines ← (imports e).mapM fun v => do
    pure (l.pad depth ++ "using " ++ (← plainText v) ++ ";")
  pure (if lines.isEmpty then [] else lines ++ [""])

/-- The lines of the enumeration at some depth. -/
def enumerationLines (e : Enumeration) (l : Layout) (depth : Nat) :
    Except Fault (List String) := do
  let members ← memberLines e l (depth + 1) true e.members
  pure (l.openBlock depth ("public enum " ++ nameText e.name) ++ members ++ [l.closeBlock depth])

/-- The lines of the source text. -/
def lines (e : Enumeration) (l : Layout) : Except Fault (List String) :=
  if e.container.isTrue then do
    let header := l.openBlock 0 ("namespace " ++ (← plainText e.container))
    let imported ← importLines e l 1
    let body ← enumerationLines e l 1
    pure (header ++ imported ++ body ++ [l.closeBlock 0])
  else do
    let imported ← importLines e l 0
    let body ← enumerationLines e l 0
    pure (imported ++ body)

/-- Lines as a text, each with a line feed at its end. -/
def unlines (ls : List String) : String := String.join (ls.map (· ++ "\n"))

/-- The source text of an enumeration. -/
def render (e : Enumeration) (l : Layout) : Except Fault String := (lines e l).map unlines

end EnumDecl.Source
