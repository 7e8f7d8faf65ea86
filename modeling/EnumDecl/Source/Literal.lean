import EnumDecl.Annotation
import EnumDecl.Fault

/-!
# Names and arguments in source text

How names and annotation arguments are written in C#. A name that is a keyword gets an `@` in
front. A text becomes a regular string literal: the backslash, the quote and all that ends a line
are escaped, and everything else stands for itself.
-/

namespace EnumDecl.Source

/-- The reserved words, none of which is a name by itself. -/
def keywords : List String := [
  "abstract", "as", "base", "bool", "break", "byte", "case", "catch", "char", "checked", "class",
  "const", "continue", "decimal", "default", "delegate", "do", "double", "else", "enum", "event",
  "explicit", "extern", "false", "finally", "fixed", "float", "for", "foreach", "goto", "if",
  "implicit", "in", "int", "interface", "internal", "is", "lock", "long", "namespace", "new",
  "null", "object", "operator", "out", "override", "params", "private", "protected", "public",
  "readonly", "ref", "return", "sbyte", "sealed", "short", "sizeof", "stackalloc", "static",
  "string", "struct", "switch", "this", "throw", "true", "try", "typeof", "uint", "ulong",
  "unchecked", "unsafe", "ushort", "using", "virtual", "void", "volatile", "while"]

/-- A text as a name. -/
def nameText (s : String) : String := if keywords.contains s then "@" ++ s else s

/-- A value as a name, which only a text can be. -/
def nameOf (v : Value) : Except Fault String :=
  match v.bare with
  | .text s => .ok (nameText s)
  | other => .error (.notText other.kind)

/-- One character as it stands in a string literal. -/
def escape (c : Char) : List Char :=
  if c = '\\' then ['\\', '\\']
  else if c = '\x22' then ['\\', '\x22']
  else if c = '\n' then ['\\', 'n']
  else if c = '\r' then ['\\', 'r']
  else if c = '\t' then ['\\', 't']
  else if c = '\x00' then ['\\', '0']
  else if c = '\u0085' || c = '\u2028' || c = '\u2029' then '\\' :: 'u' :: Text.hex 4 c.toNat
  else [c]

/-- The characters of a text as a string literal. -/
def stringChars (cs : List Char) : List Char := '\x22' :: cs.flatMap escape ++ ['\x22']

/-- A text as a string literal. -/
def stringLiteral (s : String) : String := String.ofList (stringChars s.toList)

/-- A floating point number as an expression. -/
def floatLiteral : Binary64 → String
  | .nan => "double.NaN"
  | .infinity false => "double.PositiveInfinity"
  | .infinity true => "double.NegativeInfinity"
  | x => x.text

/-- A value as a literal. -/
def literalText (v : Value) : Except Fault String :=
  match v.bare with
  | .bool b => .ok (if b then "true" else "false")
  | .null => .ok "null"
  | .int i => if Decimal.isWritable i then .ok (Decimal.ofInt i) else .error .unwritableNumber
  | .float x => .ok (floatLiteral x)
  | .text s => .ok (stringLiteral s)
  | _ => .error (Fault.showing v (.unsupportedLiteral v))

/-- An argument as an expression. -/
def argumentText : Argument → Except Fault String
  | .literal v => literalText v
  | .constant name owner => do
    if owner.isTrue then pure ((← nameOf owner) ++ "." ++ (← nameOf name))
    else nameOf name
  | .bare v => .error (.unsupportedArgument v.kind)

end EnumDecl.Source
