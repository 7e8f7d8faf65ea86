import EnumDecl.Yaml.Reader
import EnumDecl.Yaml.Writer

/-!
# YAML libraries

Dumps are written as YAML texts, and read from them, by a library from elsewhere. What is done with
the texts does not depend on how they look. `standard` is a library to run with.
-/

namespace EnumDecl.Yaml

/-- What writes values as texts and reads them again. -/
structure Library where
  write : Value → Except Fault String
  read : String → Except Fault Value

/-- The writer and the reader that there are here. -/
def Library.standard : Library := ⟨Yaml.write, Yaml.read⟩

end EnumDecl.Yaml
