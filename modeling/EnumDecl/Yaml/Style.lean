import EnumDecl.Yaml.Character
import EnumDecl.Yaml.Schema

/-!
# The style of a text

A text is written plain where that reads back as the same text, otherwise in single quotes where
none of its characters needs an escape, and in double quotes where one does.
-/

namespace EnumDecl.Yaml

/-- How a text is written. -/
inductive Style
  | plain | single | double
  deriving DecidableEq

/-- The next character, if there is one, is white space. -/
def blankNext : List Char → Bool
  | [] => true
  | c :: _ => isBlank c

/-- Tells whether characters within a plain text keep it whole: no colon before white space and no
number sign after it. -/
def keepsWhole (afterBlank : Bool) : List Char → Bool
  | [] => true
  | c :: cs =>
    !(c == ':' && blankNext cs) && !(c == '#' && afterBlank) && keepsWhole (isBlank c) cs

/-- Tells whether a text begins like a plain one. -/
def startsPlain : List Char → Bool
  | [] => false
  | c :: cs =>
    !isIndicator c && !((c == '?' || c == ':' || c == '-') && blankNext cs)

/-- Tells whether a text begins like the mark between documents. -/
def startsLikeMarker (cs : List Char) : Bool :=
  ['-', '-', '-'].isPrefixOf cs || ['.', '.', '.'].isPrefixOf cs

/-- The characters that stand for themselves in quotes of either kind. -/
def isOrdinary (c : Char) : Bool := 0x20 ≤ c.toNat && c.toNat ≤ 0x7E

/-- Tells whether a space and a line feed stand side by side. -/
def hasSpaceAtFeed : List Char → Bool
  | a :: b :: rest =>
    (a == ' ' && b == '\n') || (a == '\n' && b == ' ') || hasSpaceAtFeed (b :: rest)
  | _ => false

/-- Tells whether a text may be written plain and then stands for itself. -/
def allowsPlain (cs : List Char) : Bool :=
  startsPlain cs && !startsLikeMarker cs && cs.all isOrdinary && cs.head? != some ' ' &&
    cs.getLast? != some ' ' && keepsWhole false cs && resolve cs == .text

/-- Tells whether a text may be written in single quotes; a key has to stay on one line. -/
def allowsSingle (asKey : Bool) (cs : List Char) : Bool :=
  cs.all (fun c => c == '\n' || isOrdinary c) && !hasSpaceAtFeed cs && !(asKey && cs.contains '\n')

/-- The style of a text. -/
def styleOf (asKey : Bool) (cs : List Char) : Style :=
  if allowsPlain cs then .plain
  else if allowsSingle asKey cs then .single
  else .double

end EnumDecl.Yaml
