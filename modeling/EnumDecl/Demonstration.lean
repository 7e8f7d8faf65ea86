import EnumDecl.Sample
import EnumDecl.Workspace

/-!
# The demonstration

Shows the sample enumeration in each brace style and writes it to a directory, the current one
unless another is named. It gives what is printed, the log and the files as they are afterwards.
-/

namespace EnumDecl.Demonstration

/-- What the demonstration came to. -/
structure Outcome where
  output : String
  log : List Event
  files : FileTree
  /-- Why the file could not be written. -/
  failure : Option Fault

/-- A line of one character, eighty times. -/
def rule (c : Char) : String := String.ofList (List.replicate 80 c) ++ "\n"

/-- The title between two rules. -/
def title : String := rule '=' ++ "ENUM GENERATOR DEMO\n" ++ rule '='

/-- An enumeration in one brace style under the name of the style. -/
def styleText (e : Enumeration) (style : Source.BraceStyle) : Except Fault String := do
  let text ← Source.render e { braces := style }
  let name := String.ofList (style.name.toList.map Char.toUpper)
  pure ("\n" ++ name ++ " BRACE STYLE:\n" ++ rule '-' ++ text ++ "\n")

/-- What is printed once the file is written. -/
def savedLine (path : String) : String := "\nSaved to: " ++ path ++ "\n"

/-- The directory that is written to. -/
def directory (arguments : List String) : String := arguments.headD "."

/-- The sample with its log and the text that shows it. -/
def showSample (files : FileTree) : Except Fault (Workspace × String) := do
  let (e, events) ← Sample.build Sample.defaultNamespace
  let sections ← Source.BraceStyle.all.mapM (styleText e)
  pure (⟨e, events, files⟩, title ++ String.join sections)

/-- The whole demonstration among some files. -/
def run (arguments : List String) (files : FileTree) : Outcome :=
  match showSample files with
  | .error fault => ⟨"", [], files, some fault⟩
  | .ok (w, text) =>
    match w.saveIn {} (directory arguments) with
    | (after, .error fault) => ⟨text, after.log, after.files, some fault⟩
    | (after, .ok path) => ⟨text ++ savedLine path, after.log, after.files, none⟩

end EnumDecl.Demonstration
