import EnumDecl.Identifier
import EnumDecl.Json.Misread
import EnumDecl.FileTree
import EnumDecl.Value.Text

/-!
# Faults

Everything that can go wrong, by its cause, and the message for each cause.

A message that shows a value needs the value's text. Where that text is past the digit limit, the
limit is what is reported instead (`Fault.showing`).
-/

namespace EnumDecl

/-- What a text was to name. -/
inductive Declared
  | enumeration
  | member
  deriving DecidableEq

/-- The words for what a text was to name. -/
def Declared.words : Declared → String
  | .enumeration => "Enum type"
  | .member => "Enum member"

/-- A member that cannot be stored under a name or with a value because one of them is taken. -/
structure Clash where
  name : String
  value : Value
  nameTaken : Bool
  valueTaken : Bool

/-- The causes of failure. -/
inductive Fault
  | /-- Nothing of a text can stand in an identifier. -/
    unusableName (text : String) (declared : Declared)
  | /-- The name or the value is taken, and names are not to be changed. -/
    conflict (clash : Clash)
  | /-- The value is taken, which no other name can help. -/
    valueConflict (clash : Clash)
  | /-- All the names that were tried are taken. -/
    attemptsExhausted (clash : Clash) (requested : String) (cap : Value)
  | /-- The number of names tried cannot be compared with the cap. -/
    unorderedAttempts (cap : Value.Kind)
  | /-- A name is to be made of something that is no text. -/
    notText (kind : Value.Kind)
  | /-- A value cannot be kept in a set. -/
    unhashable (kind : Value.Kind)
  | /-- A numeral has more digits than are read. -/
    unreadableNumber (digits : Nat)
  | /-- An integer has more digits than are written. -/
    unwritableNumber
  | /-- An argument is neither a literal nor a constant. -/
    unsupportedArgument (kind : Value.Kind)
  | /-- A literal's value has no form in the source text. -/
    unsupportedLiteral (value : Value)
  | /-- The dump of an argument is of an unknown form. -/
    unsupportedForm (form : Value)
  | /-- No brace style has this name. -/
    unknownBraceStyle (value : Value)
  | /-- A mapping lacks a key. -/
    missingKey (key : String)
  | /-- A field is asked of a value that has none. -/
    notSubscriptable (kind : Value.Kind)
  | /-- A field is asked of items that have numbers only. -/
    itemField (kind : Value.Kind)
  | /-- A value is asked for something it has no name for. -/
    missingMethod (kind : Value.Kind) (method : String)
  | /-- The items of a value that has none are asked for. -/
    notIterable (kind : Value.Kind)
  | /-- What annotations are taken from broke off. -/
    interrupted (message : String)
  | /-- A value has no form in JSON. -/
    notJson (kind : Value.Kind)
  | /-- A mapping's key has no form in JSON. -/
    notJsonKey (kind : Value.Kind)
  | /-- A collection that is to be written in JSON holds itself. -/
    circular
  | /-- Keys of a mapping have no common order. -/
    unorderedKeys (a b : Value.Kind)
  | /-- A date with a time and one without have no order. -/
    unorderedDates
  | /-- A time with an offset and one without have no order. -/
    unorderedTimes
  | /-- A text is no JSON. -/
    json (misread : Json.Misread)
  | /-- A text is no YAML document that can be read. -/
    yaml
  | /-- An escape stands for no code point. -/
    codePointRange
  | /-- An escape stands for a number that does not fit into 32 bits with its sign. -/
    codePointSize
  | /-- A text said to be an integer is none in its base. -/
    notInteger (base : Nat) (text : String)
  | /-- A text said to be a floating point number is none. -/
    notFloat (text : String)
  | /-- A power of sixty is too large for a floating point number. -/
    floatSize
  | /-- A text said to be a number has no characters. -/
    emptyNumeral
  | /-- There is no such date. -/
    calendar (fault : Calendar.Fault)
  | /-- A file cannot be written. -/
    file (fault : FileTree.Fault) (path : String)

namespace Fault

/-- A fault whose message shows a value, or the digit limit where the value cannot be shown. -/
def showing (v : Value) (f : Fault) : Fault := if v.isWritable then f else .unwritableNumber

/-- The fault of a numeric suffix that cannot be counted up. -/
def ofSuffix : Identifier.SuffixFault → Fault
  | .unreadable n => .unreadableNumber n
  | .unwritable => .unwritableNumber

/-- The start of both messages about the digit limit. -/
def limitWords : String :=
  "Exceeds the limit (" ++ Decimal.ofNat Decimal.digitLimit
    ++ " digits) for integer string conversion"

/-- The end of both messages about the digit limit. -/
def limitAdvice : String := "; use sys.set_int_max_str_digits() to increase the limit"

/-- The greatest number of characters of a wrong numeral that are shown. -/
def shownNumeral : Nat := 200

/-- What is said of a value that was to be a text. -/
def notTextWords (k : Value.Kind) (quoted : String) : String :=
  if k = .bytes then "cannot use a string pattern on a bytes-like object"
  else "expected string or bytes-like object, got " ++ quoted

/-- What is said of items that were asked for a field. -/
def itemFieldWords : Value.Kind → String
  | .text => "string indices must be integers, not 'str'"
  | .bytes => "byte indices must be integers or slices, not str"
  | k => k.name ++ " indices must be integers or slices, not str"

/-- The name of a kind in quotes. -/
def quotedKind (k : Value.Kind) : String := "'" ++ k.name ++ "'"

/-- What is said about a fault. -/
def message : Fault → String
  | .unusableName text d =>
    d.words ++ " name " ++ Text.quoted text ++ " has no valid identifier characters"
  | .conflict c => "Enum name " ++ c.name ++ " or value " ++ c.value.plain ++ " already defined"
  | .valueConflict c =>
    "Enum value " ++ c.value.plain ++ " already defined; renaming " ++ c.name
      ++ " cannot resolve it"
  | .attemptsExhausted _ requested cap =>
    "Could not resolve enum name " ++ requested ++ " within " ++ cap.plain ++ " attempts"
  | .unorderedAttempts k => "'>' not supported between instances of 'int' and " ++ quotedKind k
  | .notText k => notTextWords k (quotedKind k)
  | .unhashable k => "unhashable type: " ++ quotedKind k
  | .unreadableNumber n =>
    limitWords ++ ": value has " ++ Decimal.ofNat n ++ " digits" ++ limitAdvice
  | .unwritableNumber => limitWords ++ limitAdvice
  | .unsupportedArgument k => "Unsupported Expression type: <class " ++ quotedKind k ++ ">"
  | .unsupportedLiteral v => "Unsupported literal value: " ++ v.shown
  | .unsupportedForm v => "Unsupported expression dict type: " ++ v.plain
  | .unknownBraceStyle v => v.shown ++ " is not a valid BraceStyle"
  | .missingKey key => Text.quoted key
  | .notSubscriptable k => quotedKind k ++ " object is not subscriptable"
  | .itemField k => itemFieldWords k
  | .missingMethod k a => quotedKind k ++ " object has no attribute '" ++ a ++ "'"
  | .notIterable k => quotedKind k ++ " object is not iterable"
  | .interrupted message => message
  | .notJson k => "Object of type " ++ k.shortName ++ " is not JSON serializable"
  | .notJsonKey k => "keys must be str, int, float, bool or None, not " ++ k.name
  | .circular => "Circular reference detected"
  | .unorderedKeys a b =>
    "'<' not supported between instances of " ++ quotedKind a ++ " and " ++ quotedKind b
  | .unorderedDates => "can't compare datetime.datetime to datetime.date"
  | .unorderedTimes => "can't compare offset-naive and offset-aware datetimes"
  | .json f => f.message
  | .yaml => ""
  | .codePointRange => "chr() arg not in range(0x110000)"
  | .codePointSize => "Python int too large to convert to C int"
  | .notInteger base text =>
    "invalid literal for int() with base " ++ Decimal.ofNat base ++ ": " ++
      String.ofList ((Text.quotedChars text.toList).take shownNumeral)
  | .notFloat text => "could not convert string to float: " ++ Text.quoted text
  | .floatSize => "int too large to convert to float"
  | .emptyNumeral => "string index out of range"
  | .calendar f => f.message
  | .file .embeddedNull _ => "embedded null byte"
  | .file (.unencodable codes position) _ => FileTree.unencodableWords codes position
  | .file f path =>
    "[Errno " ++ Decimal.ofNat f.number ++ "] " ++ f.words ++ ": " ++ Text.quoted path

end Fault

end EnumDecl
