import EnumDecl.Demonstration

/-!
# The command line

Runs the demonstration in the file system: prints what it shows, writes the log to standard error
and the source file into the directory named by the first argument.
-/

namespace EnumDecl

/-- Writes reports to standard error. -/
def logTo (stream : IO.FS.Stream) (events : List Event) : IO Unit :=
  events.forM fun e => stream.putStrLn e.line

/-- Prints the sample and writes its source file. -/
def demonstrate (arguments : List String) (w : Workspace) (text : String) : IO UInt32 := do
  let stderr ← IO.getStderr
  logTo stderr w.log
  IO.print text
  let path := w.sourcePath (Demonstration.directory arguments)
  match Source.render w.enumeration {} with
  | .error fault =>
    stderr.putStrLn fault.message
    pure 1
  | .ok source =>
    IO.FS.writeFile path source
    logTo stderr [w.wrote path]
    IO.print (Demonstration.savedLine path)
    pure 0

end EnumDecl

/-- The command. -/
def main (arguments : List String) : IO UInt32 :=
  match EnumDecl.Demonstration.showSample EnumDecl.FileTree.empty with
  | .error fault => do
    (← IO.getStderr).putStrLn fault.message
    pure 1
  | .ok (w, text) => EnumDecl.demonstrate arguments w text
