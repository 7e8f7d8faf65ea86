import EnumDecl.Fault
import EnumDecl.Yaml.Cursor
import EnumDecl.Yaml.Scalar

/-!
# Reading quoted text

A text in quotes may run over several lines. White space around a line end is left out and the line
ends are folded; the mark between documents must not stand at the start of a line. Single quotes
know one escape, the doubled quote. Double quotes know the escapes behind a backslash, of which one
joins two lines.
-/

namespace EnumDecl.Yaml

/-- A text read and what remains after it. -/
abbrev TextStep := Except Fault (List Char × List Char)

/-- Puts characters in front of those that are read after them. -/
def prepend (cs : List Char) (r : TextStep) : TextStep := r.map fun s => (cs ++ s.1, s.2)

/-- A space or a tab. -/
def isSpaceOrTab (c : Char) : Bool := c == ' ' || c == '\t'

/-- The line ends in front of a line of quoted text, with the white space between them left out. -/
def quotedBreaks : (fuel : Nat) → List Char → TextStep
  | 0, _ => .error .yaml
  | fuel + 1, cs =>
    if atMarker cs then .error .yaml
    else
      let rest := cs.dropWhile isSpaceOrTab
      match lineBreak? rest with
      | some (b, rest) => prepend [b] (quotedBreaks fuel rest)
      | none => .ok ([], rest)

/-- White space within quoted text: it stays within a line and is folded at the end of one. -/
def quotedSpace (cs : List Char) : TextStep :=
  let rest := cs.dropWhile isSpaceOrTab
  match lineBreak? rest with
  | some (b, rest) => do
    let (others, rest) ← quotedBreaks (rest.length + 1) rest
    pure (foldBreaks b others, rest)
  | none => if rest.isEmpty then .error .yaml else .ok (cs.takeWhile isSpaceOrTab, rest)

/-- Tells whether white space or a line end begins. -/
def isQuotedSpace (c : Char) : Bool := isSpaceOrTab c || isBreak c

/-- A text up to its closing single quote. -/
def singleQuoted : (fuel : Nat) → List Char → TextStep
  | 0, _ => .error .yaml
  | _ + 1, [] => .error .yaml
  | fuel + 1, c :: cs =>
    if c = '\x27' then
      match cs with
      | '\x27' :: rest => prepend ['\x27'] (singleQuoted fuel rest)
      | _ => .ok ([], cs)
    else if isQuotedSpace c then do
      let (space, rest) ← quotedSpace (c :: cs)
      prepend space (singleQuoted fuel rest)
    else prepend [c] (singleQuoted fuel cs)

/-- The number of hexadecimal digits after a letter that announces a code point. -/
def codeLength? (c : Char) : Option Nat :=
  if c = 'x' then some 2 else if c = 'u' then some 4 else if c = 'U' then some 8 else none

/-- The character of a short escape; besides those that are written, a space and a slash may be
escaped, and a tab stands for itself. -/
def shortEscape? (c : Char) : Option Char :=
  if c = ' ' || c = '/' || c = '\t' then some c
  else (shortEscapes.find? fun e => e.1 == c).map (·.2)

/-- The character of a code point; half of a surrogate pair has none and is replaced. -/
def ofCode (n : Nat) : Except Fault Char :=
  if 0x7FFFFFFF < n then .error .codePointSize
  else if 0x10FFFF < n then .error .codePointRange
  else if 0xD800 ≤ n && n ≤ 0xDFFF then .ok '\uFFFD'
  else .ok (Char.ofNat n)

/-- The character of an escape after its backslash. -/
def escaped (cs : List Char) : TextStep :=
  match cs with
  | [] => .error .yaml
  | c :: cs =>
    match shortEscape? c, codeLength? c with
    | some d, _ => .ok ([d], cs)
    | none, some n =>
      match (cs.take n).length == n, Text.readHex? (cs.take n) with
      | true, some code => (ofCode code).map fun d => ([d], cs.drop n)
      | _, _ => .error .yaml
    | none, none =>
      match lineBreak? (c :: cs) with
      | some (_, rest) => quotedBreaks (rest.length + 1) rest
      | none => .error .yaml

/-- A text up to its closing double quote. -/
def doubleQuoted : (fuel : Nat) → List Char → TextStep
  | 0, _ => .error .yaml
  | _ + 1, [] => .error .yaml
  | fuel + 1, c :: cs =>
    if c = '\x22' then .ok ([], cs)
    else if c = '\\' then do
      let (text, rest) ← escaped cs
      prepend text (doubleQuoted fuel rest)
    else if isQuotedSpace c then do
      let (space, rest) ← quotedSpace (c :: cs)
      prepend space (doubleQuoted fuel rest)
    else prepend [c] (doubleQuoted fuel cs)

end EnumDecl.Yaml
