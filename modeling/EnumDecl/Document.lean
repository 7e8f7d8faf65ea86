import EnumDecl.Dump
import EnumDecl.Json.Reader
import EnumDecl.Json.Writer
import EnumDecl.Yaml.Library

/-!
# Documents

The dump of an enumeration as a text, in JSON or YAML, and the enumeration of such a text. A text
has one not-a-number for its name, so no two members of it can have that value; the dump as a
value, which is not read from a text, has no such bound.
-/

namespace EnumDecl.Document

/-- The forms of a dump. -/
inductive Format
  | value | json | yaml
  deriving DecidableEq

/-- The JSON text of an enumeration. -/
def toJson (e : Enumeration) : Except Fault String := e.toValue >>= Json.write

/-- The YAML text of an enumeration as a library writes it. -/
def toYamlBy (yaml : Yaml.Library) (e : Enumeration) : Except Fault String :=
  e.toValue >>= yaml.write

/-- The YAML text of an enumeration. -/
def toYaml (e : Enumeration) : Except Fault String := toYamlBy .standard e

/-- The enumeration of a dump, or the fault that making the dump came to. -/
def load (dump : Except Fault Value) : Enumeration.Loading :=
  match dump with
  | .error fault => ⟨[], .error fault⟩
  | .ok v => Enumeration.ofValue v

/-- The enumeration of a JSON text. -/
def ofJson (text : String) : Enumeration.Loading := load (Json.read text)

/-- The enumeration of a YAML text as a library reads it. -/
def ofYamlBy (yaml : Yaml.Library) (text : String) : Enumeration.Loading := load (yaml.read text)

/-- The enumeration of a YAML text. -/
def ofYaml (text : String) : Enumeration.Loading := ofYamlBy .standard text

/-- The enumeration that the dump of another one makes. -/
def reload (format : Format) (e : Enumeration) : Enumeration.Loading :=
  match format with
  | .value => load e.toValue
  | .json =>
    match toJson e with
    | .error fault => ⟨[], .error fault⟩
    | .ok text => ofJson text
  | .yaml =>
    match toYaml e with
    | .error fault => ⟨[], .error fault⟩
    | .ok text => ofYaml text

end EnumDecl.Document
