import EnumDecl.Yaml.Cursor

/-!
# Reading plain text

A plain text ends where a colon, a comment or, within brackets, one of their indicators ends it. It
may run over several lines as long as these are indented far enough; their ends are folded as in
quoted text.
-/

namespace EnumDecl.Yaml

/-- The part of a plain text up to white space or to an indicator that ends it. -/
def plainWord (inFlow : Bool) : List Char → List Char × List Char
  | [] => ([], [])
  | c :: cs =>
    let follows := cs.headD endMark
    let ends :=
      isBlank c || (c == ':' && (isBlank follows || (inFlow && isFlowIndicator follows))) ||
      (inFlow && (c == '?' || isFlowIndicator c))
    if ends then ([], c :: cs)
    else
      let rest := plainWord inFlow cs
      (c :: rest.1, rest.2)

/-- White space between two parts of a plain text. -/
structure PlainGap where
  /-- What it is read as; nothing where it ends the text. -/
  text : List Char
  /-- Whether it holds a line end. -/
  crossed : Bool
  /-- The column after it, if it holds a line end. -/
  column : Nat
  rest : List Char

/-- The line ends after the first one, and the column after them; `none` at a mark between
documents. -/
def plainBreaks : (fuel : Nat) → List Char → Option (List Char) × Nat × List Char
  | 0, cs => (some [], 0, cs)
  | fuel + 1, cs =>
    if atMarker cs then (none, 0, cs)
    else
      let spaces := (cs.takeWhile (· == ' ')).length
      let rest := cs.dropWhile (· == ' ')
      match lineBreak? rest with
      | none => (some [], spaces, rest)
      | some (b, rest) =>
        let (others, column, rest) := plainBreaks fuel rest
        (others.map (b :: ·), column, rest)

/-- The white space at the front. -/
def plainGap (cs : List Char) : PlainGap :=
  let rest := cs.dropWhile (· == ' ')
  match lineBreak? rest with
  | none => ⟨cs.takeWhile (· == ' '), false, 0, rest⟩
  | some (b, rest) =>
    match plainBreaks (rest.length + 1) rest with
    | (none, column, rest) => ⟨[], true, column, rest⟩
    | (some others, column, rest) => ⟨foldBreaks b others, true, column, rest⟩

/-- A plain text, whether a line end was read after it, and what remains. -/
structure PlainText where
  text : List Char
  crossed : Bool
  rest : List Char

/-- A plain text within the lines that are indented by `indent` at least; `gap` is the white space
read before it. -/
def plainText (inFlow : Bool) (indent : Int) : (fuel : Nat) → (gap : PlainGap) → PlainText
  | 0, gap => ⟨[], gap.crossed, gap.rest⟩
  | fuel + 1, gap =>
    let (word, rest) := plainWord inFlow gap.rest
    if word.isEmpty then ⟨[], gap.crossed, gap.rest⟩
    else
      let after := plainGap rest
      -- a line that is not indented far enough belongs to something around the text
      let outdented := !inFlow && after.crossed && (after.column : Int) < indent
      if after.text.isEmpty || after.rest.head? == some '#' || outdented then
        ⟨gap.text ++ word, after.crossed, after.rest⟩
      else
        let others := plainText inFlow indent fuel after
        ⟨gap.text ++ word ++ others.text, others.crossed, others.rest⟩

/-- The plain text at the front. -/
def readPlain (inFlow : Bool) (indent : Int) (cs : List Char) : PlainText :=
  plainText inFlow indent (cs.length + 1) ⟨[], false, 0, cs⟩

end EnumDecl.Yaml
