import EnumDecl.Yaml.Quoted

/-!
# Reading block text

A block text follows a header and goes on as long as its lines are indented. A literal one keeps
its line ends, a folded one folds them where neither line begins with white space. The header may
fix the depth of the indentation and say whether line ends at the end are all kept or all dropped;
one is kept otherwise.
-/

namespace EnumDecl.Yaml

/-- What becomes of the line ends at the end of a block text. -/
inductive Chomping
  | clip | keep | strip
  deriving DecidableEq

/-- The characters after spaces and a comment up to the end of the line; nothing else may stand
there. -/
def restOfLine (cs : List Char) : Except Fault (List Char) :=
  let cs := cs.dropWhile (· == ' ')
  let cs := if cs.head? = some '#' then cs.dropWhile fun c => !isBreakOrEnd c else cs
  match lineBreak? cs with
  | some (_, rest) => .ok rest
  | none => if cs.isEmpty then .ok [] else .error .yaml

/-- The chomping of a header's sign. -/
def chomping? (c : Char) : Option Chomping :=
  if c = '+' then some .keep else if c = '-' then some .strip else none

/-- The sign and the depth in a header, in either order and both optional, and the line they stand
on. -/
def blockHeader (cs : List Char) : Except Fault (Chomping × Option Nat × List Char) := do
  let (sign, cs) := match cs with
    | c :: rest => if (chomping? c).isSome then (chomping? c, rest) else (none, cs)
    | [] => (none, [])
  let (depth, cs) := match cs with
    | d :: rest => if d.isDigit then (some (d.toNat - 0x30), rest) else (none, cs)
    | [] => (none, [])
  let (sign, cs) := match sign, depth, cs with
    | none, some _, c :: rest => if (chomping? c).isSome then (chomping? c, rest) else (none, cs)
    | sign, _, cs => (sign, cs)
  if depth = some 0 || !isSpaceOrEnd (cs.headD endMark) then throw .yaml
  pure (sign.getD .clip, depth, ← restOfLine cs)

/-- Empty lines, and what follows them with the column it begins in. -/
structure BlockGap where
  breaks : List Char
  column : Nat
  rest : List Char

/-- The lines that hold nothing but at most `indent` spaces. -/
def blockBreaks (indent : Nat) : (fuel : Nat) → List Char → BlockGap
  | 0, cs => ⟨[], 0, cs⟩
  | fuel + 1, cs =>
    let spaces := ((cs.take indent).takeWhile (· == ' ')).length
    let rest := cs.drop spaces
    match lineBreak? rest with
    | none => ⟨[], spaces, rest⟩
    | some (b, rest) =>
      let others := blockBreaks indent fuel rest
      ⟨b :: others.breaks, others.column, others.rest⟩

/-- The lines that hold nothing but spaces, with the greatest number of spaces that any of them or
the line after them begins with. -/
def blockIndentation : (fuel : Nat) → List Char → Nat × BlockGap
  | 0, cs => (0, ⟨[], 0, cs⟩)
  | fuel + 1, cs =>
    let spaces := (cs.takeWhile (· == ' ')).length
    let rest := cs.dropWhile (· == ' ')
    match lineBreak? rest with
    | none => (spaces, ⟨[], spaces, rest⟩)
    | some (b, rest) =>
      let (most, others) := blockIndentation fuel rest
      (max spaces most, ⟨b :: others.breaks, others.column, others.rest⟩)

/-- Tells whether a line of a block text begins here. -/
def BlockGap.continues (g : BlockGap) (indent : Nat) : Bool :=
  g.column == indent && !g.rest.isEmpty

/-- Tells whether a line begins with white space. -/
def startsBlank (cs : List Char) : Bool :=
  match cs with
  | c :: _ => isSpaceOrTab c
  | [] => false

/-- The lines of a block text from the empty lines before one of them on: the text, the last line
end, the empty lines after it, and what remains. -/
structure BlockText where
  text : List Char
  lastBreak : List Char
  gap : BlockGap

/-- What stands between two lines of a block text before the empty lines between them. -/
def blockJoin (folded : Bool) (line : List Char) (lineEnd : List Char) (gap : BlockGap) :
    List Char :=
  if folded && lineEnd == ['\n'] && !startsBlank line && !startsBlank gap.rest then
    (if gap.breaks.isEmpty then [' '] else [])
  else lineEnd

/-- The lines of a block text. -/
def blockLines (folded : Bool) (indent : Nat) : (fuel : Nat) → BlockGap → BlockText
  | 0, gap => ⟨[], [], gap⟩
  | fuel + 1, gap =>
    if !gap.continues indent then ⟨[], [], gap⟩
    else
      let line := gap.rest.takeWhile fun c => !isBreakOrEnd c
      let rest := gap.rest.dropWhile fun c => !isBreakOrEnd c
      let (lineEnd, rest) := match lineBreak? rest with
        | some (b, rest) => ([b], rest)
        | none => ([], rest)
      let after := blockBreaks indent (rest.length + 1) rest
      if after.continues indent then
        let others := blockLines folded indent fuel after
        ⟨gap.breaks ++ line ++ blockJoin folded gap.rest lineEnd after ++ others.text,
          others.lastBreak, others.gap⟩
      else ⟨gap.breaks ++ line, lineEnd, after⟩

/-- What is kept at the end of a block text. -/
def BlockText.chomped (t : BlockText) : Chomping → List Char
  | .strip => t.text
  | .clip => t.text ++ t.lastBreak
  | .keep => t.text ++ t.lastBreak ++ t.gap.breaks

/-- A block text after its indicator, in a collection of some depth. -/
def readBlock (folded : Bool) (depth : Int) (cs : List Char) : TextStep := do
  let (chomping, increment, rest) ← blockHeader cs
  let least := (max (depth + 1) 1).toNat
  let (indent, gap) := match increment with
    | some n =>
      let indent := least + n - 1
      (indent, blockBreaks indent (rest.length + 1) rest)
    | none =>
      let (most, gap) := blockIndentation (rest.length + 1) rest
      (max least most, gap)
  let read := blockLines folded indent (rest.length + 1) gap
  pure (read.chomped chomping, read.gap.rest)

end EnumDecl.Yaml
