import EnumDecl.Yaml.Plain
import EnumDecl.Yaml.Property

/-!
# Tokens

A text is cut into tokens. Indentation becomes tokens of its own, which open and close the
collections in block style. A key without a question mark is known only once its colon is found:
until then its place among the tokens is pending, one place for each pair of brackets around it and
one outside of them all. A pending key has to stand on one line and within 1024 characters; one
that begins a line of a mapping has to become a key.

Most faults of a text are of one kind, and it does not matter where they are. The few others count
only if nothing is wrong before them. The place of such a fault is kept as a last token (`failed`),
after those tokens that are certain by then: a pending key and what follows it are not.
-/

namespace EnumDecl.Yaml

/-- The tokens of a text. -/
inductive Token
  | directive (d : Directive)
  | documentStart
  | documentEnd
  | blockSequenceStart
  | blockMappingStart
  | blockEnd
  | flowSequenceStart
  | flowSequenceEnd
  | flowMappingStart
  | flowMappingEnd
  | blockEntry
  | flowEntry
  | key
  | value
  | aliasOf (name : List Char)
  | anchor (name : List Char)
  | tag (written : WrittenTag)
  | scalar (text : List Char) (isPlain : Bool)
  | /-- No token: here the text cannot be cut any further. -/
    failed (fault : Fault)

/-- The place of what may turn out to be a key. -/
structure PendingKey where
  /-- How many tokens stand before it. -/
  position : Nat
  /-- Whether it has to turn out to be one. -/
  required : Bool
  index : Nat
  line : Nat
  column : Nat

/-- How far a text has been cut into tokens. -/
structure Scan where
  cursor : Cursor
  /-- The tokens found, the latest first. -/
  tokens : List Token
  /-- The indentation of the innermost collection in block style, -1 outside of all. -/
  indent : Int
  /-- The indentations around it, innermost first. -/
  outer : List Int
  /-- Whether a key may begin here. -/
  keyAllowed : Bool
  /-- The pending key outside of all brackets. -/
  blockKey : Option PendingKey
  /-- The pending keys inside the open brackets, innermost first. -/
  flowKeys : List (Option PendingKey)

namespace Scan

/-- The start of a text. -/
def start (cs : List Char) : Scan := ⟨Cursor.start cs, [], -1, [], true, none, []⟩

/-- Whether brackets are open. -/
def inFlow (s : Scan) : Bool := !s.flowKeys.isEmpty

/-- The same scan at another cursor. -/
def withCursor (s : Scan) (c : Cursor) : Scan := { s with cursor := c }

/-- The same scan with one more token. -/
def push (s : Scan) (t : Token) : Scan := { s with tokens := t :: s.tokens }

/-- The same scan with its cursor at the point where only the given characters remain. -/
def moveTo (s : Scan) (rest : List Char) : Scan := s.withCursor (s.cursor.moveTo rest)

/-- The same scan with a token put in after the first `position` ones. -/
def insertAt (s : Scan) (position : Nat) (t : Token) : Scan :=
  -- the tokens are kept in reverse, so the later ones come first
  let later := s.tokens.length - position
  { s with tokens := s.tokens.take later ++ t :: s.tokens.drop later }

/-! ## Pending keys -/

/-- The key pending at the current level. -/
def pending (s : Scan) : Option PendingKey :=
  match s.flowKeys with
  | [] => s.blockKey
  | k :: _ => k

/-- The same scan with another key pending at the current level. -/
def setPending (s : Scan) (k : Option PendingKey) : Scan :=
  match s.flowKeys with
  | [] => { s with blockKey := k }
  | _ :: ks => { s with flowKeys := k :: ks }

/-- Gives up the key pending at the current level, which is an error if it had to become one. -/
def dropPending (s : Scan) : Except Fault Scan :=
  match s.pending with
  | some k => if k.required then .error .yaml else .ok (s.setPending none)
  | none => .ok s

/-- Makes the next token a pending key where a key may begin. -/
def savePending (s : Scan) : Except Fault Scan :=
  if !s.keyAllowed then .ok s
  else do
    -- the new key takes the place of the one pending so far
    let s ← s.dropPending
    let c := s.cursor
    -- at the indentation of a mapping nothing but its next key can stand
    let required := !s.inFlow && s.indent == c.column
    pure (s.setPending (some ⟨s.tokens.length, required, c.index, c.line, c.column⟩))

/-- The longest key without a question mark. -/
def keyReach : Nat := 1024

/-- A pending key that the cursor has got too far from. -/
def isStale (c : Cursor) (k : PendingKey) : Bool :=
  k.line != c.line || k.index + keyReach < c.index

/-- Gives up one pending key if the cursor has got too far from it. -/
def freshOrNone (c : Cursor) : Option PendingKey → Except Fault (Option PendingKey)
  | none => .ok none
  | some k =>
    if !isStale c k then .ok (some k)
    else if k.required then .error .yaml
    else .ok none

/-- Gives up the pending keys that the cursor has got too far from. -/
def dropStale (s : Scan) : Except Fault Scan := do
  let blockKey ← freshOrNone s.cursor s.blockKey
  let flowKeys ← s.flowKeys.mapM (freshOrNone s.cursor)
  pure { s with blockKey := blockKey, flowKeys := flowKeys }

/-! ## Indentation -/

/-- Closes the collections in block style that are indented deeper than a column. -/
def unwindTo (column : Int) : List Int → Int → List Token → Int × List Int × List Token
  | [], indent, tokens => (indent, [], tokens)
  | i :: outer, indent, tokens =>
    if column < indent then unwindTo column outer i (.blockEnd :: tokens)
    else (indent, i :: outer, tokens)

/-- Closes the collections that end before a column; brackets take no notice of indentation. -/
def unwind (s : Scan) (column : Int) : Scan :=
  if s.inFlow then s
  else
    let (indent, outer, tokens) := unwindTo column s.outer s.indent s.tokens
    { s with indent := indent, outer := outer, tokens := tokens }

/-- Opens a collection in block style at a column, unless one is open that is indented so far. -/
def indentTo (s : Scan) (column : Int) : Option Scan :=
  if s.indent < column then some { s with outer := s.indent :: s.outer, indent := column }
  else none

/-- Opens a collection at the cursor where its first entry stands. -/
def openAt (s : Scan) (opening : Token) : Scan :=
  match s.indentTo s.cursor.column with
  | some s => s.push opening
  | none => s

/-! ## Between tokens -/

/-- The characters after a comment, if one begins here. -/
def afterComment (cs : List Char) : List Char :=
  if cs.head? = some '#' then cs.dropWhile fun c => !isBreakOrEnd c else cs

/-- Moves over spaces, comments and line ends. A line end outside of brackets allows a key
again. -/
def toNextToken : (fuel : Nat) → Scan → Scan
  | 0, s => s
  | fuel + 1, s =>
    let rest := afterComment (s.cursor.rest.dropWhile (· == ' '))
    match lineBreak? rest with
    | some (_, rest) =>
      let s := s.moveTo rest
      toNextToken fuel { s with keyAllowed := s.keyAllowed || !s.inFlow }
    | none => s.moveTo rest

/-- The scan after a byte order mark at the very start. -/
def skipMark (s : Scan) : Scan :=
  if s.cursor.index = 0 && s.cursor.peek == '\uFEFF' then s.withCursor s.cursor.next else s

/-! ## Single tokens -/

/-- Moves over some characters, which are a token by themselves. -/
def take (s : Scan) (length : Nat) (t : Token) : Scan :=
  (s.withCursor (s.cursor.skip length)).push t

/-- Ends all open collections, as between documents. -/
def endBlocks (s : Scan) : Except Fault Scan := do
  let s ← (s.unwind (-1)).dropPending
  pure { s with keyAllowed := false }

/-- The mark between documents, of three characters. -/
def marker (s : Scan) (t : Token) : Except Fault Scan := do pure ((← s.endBlocks).take 3 t)

/-- A directive. -/
def directive (s : Scan) : Except Fault Scan := do
  let s ← s.endBlocks
  let (d, rest) ← readDirective (s.cursor.rest.drop 1)
  pure ((s.moveTo rest).push (.directive d))

/-- An opening bracket or brace. -/
def openFlow (s : Scan) (t : Token) : Except Fault Scan := do
  let s ← s.savePending
  pure ({ s with flowKeys := none :: s.flowKeys, keyAllowed := true }.take 1 t)

/-- A closing bracket or brace. -/
def closeFlow (s : Scan) (t : Token) : Except Fault Scan := do
  let s ← s.dropPending
  pure ({ s with flowKeys := s.flowKeys.drop 1, keyAllowed := false }.take 1 t)

/-- A comma. -/
def flowEntry (s : Scan) : Except Fault Scan := do
  let s ← { s with keyAllowed := true }.dropPending
  pure (s.take 1 .flowEntry)

/-- A dash before an item of a list. -/
def blockEntry (s : Scan) : Except Fault Scan := do
  if !s.inFlow && !s.keyAllowed then throw .yaml
  let s := if s.inFlow then s else s.openAt .blockSequenceStart
  let s ← { s with keyAllowed := true }.dropPending
  pure (s.take 1 .blockEntry)

/-- A question mark before a key. -/
def explicitKey (s : Scan) : Except Fault Scan := do
  if !s.inFlow && !s.keyAllowed then throw .yaml
  let s := if s.inFlow then s else s.openAt .blockMappingStart
  let s ← { s with keyAllowed := !s.inFlow }.dropPending
  pure (s.take 1 .key)

/-- Makes the pending key a key, and opens the mapping that it is the first key of. -/
def confirmKey (s : Scan) (k : PendingKey) : Scan :=
  let s := (s.setPending none).insertAt k.position .key
  -- the mapping begins where its key does, so its token goes in front of the key's
  let s :=
    if s.inFlow then s
    else
      match s.indentTo k.column with
      | some s => s.insertAt k.position .blockMappingStart
      | none => s
  { s with keyAllowed := false }

/-- A colon between a key and its value. -/
def value (s : Scan) : Except Fault Scan :=
  match s.pending with
  | some k => .ok ((s.confirmKey k).take 1 .value)
  | none => do
    if !s.inFlow && !s.keyAllowed then throw .yaml
    let s := if s.inFlow then s else s.openAt .blockMappingStart
    let s ← { s with keyAllowed := !s.inFlow }.dropPending
    pure (s.take 1 .value)

/-- A token that may begin a key, read from the characters after its indicator. -/
def keyLike {α : Type} (s : Scan) (read : List Char → Except Fault (α × List Char))
    (t : α → Token) :
    Except Fault Scan := do
  let s ← s.savePending
  let (a, rest) ← read (s.cursor.rest.drop 1)
  pure (({ s with keyAllowed := false }.moveTo rest).push (t a))

/-- A text in quotes. -/
def quoted (s : Scan) (read : (fuel : Nat) → List Char → TextStep) : Except Fault Scan :=
  s.keyLike (fun cs => read (cs.length + 1) cs) (fun text => .scalar text false)

/-- A text in block style. -/
def block (s : Scan) (folded : Bool) : Except Fault Scan := do
  let s ← { s with keyAllowed := true }.dropPending
  let (text, rest) ← readBlock folded s.indent (s.cursor.rest.drop 1)
  pure ((s.moveTo rest).push (.scalar text false))

/-- A plain text. -/
def plain (s : Scan) : Except Fault Scan := do
  let s ← s.savePending
  let read := readPlain s.inFlow (s.indent + 1) s.cursor.rest
  pure (({ s with keyAllowed := read.crossed }.moveTo read.rest).push (.scalar read.text true))

/-- Tells whether a plain text may begin with a character before another one. -/
def beginsPlain (s : Scan) (c follows : Char) : Bool :=
  (!isBlank c && !isIndicator c && c != '-' && c != '?' && c != ':') ||
    (!isBlank follows && (c == '-' || (!s.inFlow && (c == '?' || c == ':'))))

/-- The scan at its next token, with what the place of that token ends left behind: pending keys
that are too far away and collections that are indented deeper. -/
def arrive (s : Scan) : Except Fault Scan := do
  let s := s.skipMark
  let s ← (s.toNextToken (s.cursor.rest.length + 1)).dropStale
  pure (s.unwind s.cursor.column)

/-- The scan after the token that begins with the character `c` before `cs`. -/
def token (s : Scan) (c : Char) (cs : List Char) : Except Fault Scan :=
  let follows := cs.headD endMark
  let lineStart := s.cursor.column == 0
  if c = '%' && lineStart then s.directive
  else if c = '-' && lineStart && atMarker (c :: cs) then s.marker .documentStart
  else if c = '.' && lineStart && atMarker (c :: cs) then s.marker .documentEnd
  else if c = '[' then s.openFlow .flowSequenceStart
  else if c = '\x7b' then s.openFlow .flowMappingStart
  else if c = ']' then s.closeFlow .flowSequenceEnd
  else if c = '\x7d' then s.closeFlow .flowMappingEnd
  else if c = ',' then s.flowEntry
  -- a dash, question mark or colon before another character begins a plain text
  else if c = '-' && isBlank follows then s.blockEntry
  else if c = '?' && (s.inFlow || isBlank follows) then s.explicitKey
  else if c = ':' && (s.inFlow || isBlank follows) then s.value
  else if c = '*' then s.keyLike readAnchor .aliasOf
  else if c = '&' then s.keyLike readAnchor .anchor
  else if c = '!' then s.keyLike readTag .tag
  else if c = '|' && !s.inFlow then s.block false
  else if c = '>' && !s.inFlow then s.block true
  else if c = '\x27' then s.quoted singleQuoted
  else if c = '\x22' then s.quoted doubleQuoted
  else if s.beginsPlain c follows then s.plain
  else .error .yaml

/-- The tokens found that are certain, whatever follows: those in front of all pending keys. -/
def certain (s : Scan) : List Token :=
  let found := s.tokens.reverse
  let pending := (s.blockKey :: s.flowKeys).filterMap id
  match ((pending.filter fun k => !isStale s.cursor k).map (·.position)).min? with
  | some n => found.take n
  | none => found

/-- The scan after one more token, or, with `true`, after the last one. -/
def next (s : Scan) : Except Fault (Bool × Scan) := do
  let s ← s.arrive
  match s.cursor.rest with
  | [] => pure (true, ← s.endBlocks)
  | c :: cs => pure (false, ← s.token c cs)

/-- All tokens of a text, of which a scan has found the first; each takes a character at least. -/
def all : (fuel : Nat) → Scan → Except Fault (List Token)
  | 0, _ => .error .yaml
  | fuel + 1, s =>
    match s.next with
    | .ok (true, s) => .ok s.tokens.reverse
    | .ok (false, s) => all fuel s
    | .error .yaml => .error .yaml
    | .error fault => .ok (s.certain ++ [.failed fault])

end Scan

/-- The tokens of a text. -/
def tokens (cs : List Char) : Except Fault (List Token) :=
  if cs.all isAllowed then Scan.all (cs.length + 1) (Scan.start cs) else .error .yaml

end EnumDecl.Yaml
