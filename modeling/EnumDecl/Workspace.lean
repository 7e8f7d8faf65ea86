import EnumDecl.Document
import EnumDecl.Source.Render

/-!
# Workspaces

One enumeration together with the log of what was done to it and the files around it. Each
operation gives the workspace afterwards and what it came to. One that fails may have come some
way: what was reported up to there is kept, and so is what was done to the enumeration or to a
file.
-/

namespace EnumDecl

/-- An enumeration being worked on. -/
structure Workspace where
  enumeration : Enumeration
  /-- What was reported, oldest first. -/
  log : List Event
  files : FileTree

namespace Workspace

/-- Adds a member. -/
def add (w : Workspace) (r : Entry) : Workspace × Except Fault Member :=
  let added := w.enumeration.add r.request
  ({ w with enumeration := added.enumeration, log := w.log ++ added.events }, added.result)

/-- The report that an enumeration was written. -/
def wrote (w : Workspace) (path : String) : Event :=
  .wrote w.enumeration.name w.enumeration.size path

/-- Renders the enumeration and hands the text to a writer, which keeps it in place of the file. -/
def handOver (w : Workspace) (layout : Source.Layout) (path : String) :
    Workspace × Except Fault String :=
  match Source.render w.enumeration layout with
  | .error fault => (w, .error fault)
  | .ok text => ({ w with log := w.log ++ [w.wrote path] }, .ok text)

/-- Renders the enumeration and writes the text to a path. -/
def save (w : Workspace) (layout : Source.Layout) (path : String) :
    Workspace × Except Fault String :=
  match Source.render w.enumeration layout with
  | .error fault => (w, .error fault)
  | .ok text =>
    let writing := w.files.writeCodes path (FileTree.codesOf text)
    match writing.fault with
    | some fault => ({ w with files := writing.files }, .error (.file fault path))
    | none => ({ w with files := writing.files, log := w.log ++ [w.wrote path] }, .ok text)

/-- The path of the source file in a directory. -/
def sourcePath (w : Workspace) (directory : String) : String :=
  FileTree.join directory (w.enumeration.fileName ".cs")

/-- Writes the source file into a directory and gives its path. -/
def saveIn (w : Workspace) (layout : Source.Layout) (directory : String) :
    Workspace × Except Fault String :=
  let path := w.sourcePath directory
  let (after, result) := w.save layout path
  (after, result.map fun _ => path)

/-- Replaces the enumeration by what its dump makes. -/
def reload (w : Workspace) (format : Document.Format) : Workspace × Except Fault Enumeration :=
  let loaded := Document.reload format w.enumeration
  let after := { w with log := w.log ++ loaded.events }
  match loaded.result with
  | .error fault => (after, .error fault)
  | .ok e => ({ after with enumeration := e }, .ok e)

end Workspace

end EnumDecl
