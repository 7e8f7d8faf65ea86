import EnumDecl.Value.Text

/-!
# The log

What building and writing an enumeration reports while it goes on: a type name that had to be
changed, each name that was tried and found taken, each member stored, and each file written.
-/

namespace EnumDecl

/-- One report. -/
inductive Event
  | /-- A text was changed into a type name. -/
    sanitized (text name : String)
  | /-- A member's name was taken and another one is tried. -/
    renamed (enumeration old new : String)
  | /-- A member was stored. -/
    added (enumeration name : String) (value : Value)
  | /-- The source text of an enumeration was written. -/
    wrote (enumeration : String) (members : Nat) (path : String)

namespace Event

/-- How much a report matters. -/
inductive Level
  | debug
  | info
  deriving DecidableEq

/-- The word for a level. -/
def Level.word : Level → String
  | .debug => "DEBUG"
  | .info => "INFO"

/-- The level of a report. -/
def level : Event → Level
  | .wrote .. => .info
  | _ => .debug

/-- The name of the log that a report goes to. -/
def channel : Event → String
  | .wrote .. => "enumgen.backends.csharp_generator"
  | _ => "enumgen.model"

/-- The text of a report. -/
def message : Event → String
  | .sanitized text name =>
    "Sanitized enum type name " ++ Text.quoted text ++ " -> " ++ Text.quoted name
  | .renamed e old new =>
    "Enum " ++ e ++ ": member " ++ old ++ " already defined, retrying as " ++ new
  | .added e name value => "Enum " ++ e ++ ": added member " ++ name ++ " = " ++ value.plain
  | .wrote e n path => "Wrote enum " ++ e ++ " (" ++ Decimal.ofNat n ++ " members) to " ++ path

/-- A report as one line. -/
def line (e : Event) : String := e.level.word ++ " " ++ e.channel ++ ": " ++ e.message

end Event

end EnumDecl
