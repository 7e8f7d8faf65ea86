import EnumDecl.Yaml.Block

/-!
# Reading names, tags and directives

Anchors and aliases have a name. A tag is written in full between angle brackets, or as a handle,
which a directive may define, and a suffix. A directive gives the version or a handle; others are
passed over.
-/

namespace EnumDecl.Yaml

/-- A tag as it is written. -/
structure WrittenTag where
  /-- The handle, unless the tag is written in full. -/
  handle : Option (List Char)
  suffix : List Char

/-- A directive. -/
inductive Directive
  | version (major : Nat)
  | handle (name expansion : List Char)
  | other

/-- A name of at least one character. -/
def takeName (cs : List Char) : Except Fault (List Char × List Char) :=
  let name := cs.takeWhile isNameChar
  if name.isEmpty then .error .yaml else .ok (name, cs.dropWhile isNameChar)

/-- What may stand after the name of an anchor or alias. -/
def endsAnchor (c : Char) : Bool := isBlank c || "?:,]\x7d%@\x60".toList.contains c

/-- The name of an anchor or alias after its indicator. -/
def readAnchor (cs : List Char) : Except Fault (List Char × List Char) := do
  let (name, rest) ← takeName cs
  if endsAnchor (rest.headD endMark) then pure (name, rest) else throw .yaml

/-! ## Tags -/

/-- The byte of a percent sign and two hexadecimal digits. -/
def percentByte? : List Char → Option (UInt8 × List Char)
  | '%' :: a :: b :: rest => (Text.readHex? [a, b]).map fun n => (UInt8.ofNat n, rest)
  | _ => none

/-- The bytes of the percent signs at the front; a percent sign without its digits is an error. -/
def percentBytes : (fuel : Nat) → List Char → Except Fault (List UInt8 × List Char)
  | 0, _ => .error .yaml
  | fuel + 1, cs =>
    if cs.head? ≠ some '%' then .ok ([], cs)
    else
      match percentByte? cs with
      | none => .error .yaml
      | some (b, rest) => (percentBytes fuel rest).map fun s => (b :: s.1, s.2)

/-- The characters of a tag, the escaped ones by their UTF-8 bytes. -/
def tagChars : (fuel : Nat) → List Char → Except Fault (List Char × List Char)
  | 0, _ => .error .yaml
  | _ + 1, [] => .ok ([], [])
  | fuel + 1, c :: cs =>
    if c = '%' then do
      let (bytes, rest) ← percentBytes ((c :: cs).length + 1) (c :: cs)
      match String.fromUTF8? (ByteArray.mk bytes.toArray) with
      | none => throw .yaml
      | some s =>
        let (others, rest) ← tagChars fuel rest
        pure (s.toList ++ others, rest)
    else if isTagChar c then do
      let (others, rest) ← tagChars fuel cs
      pure (c :: others, rest)
    else .ok ([], c :: cs)

/-- The characters of a tag, at least one. -/
def takeTag (cs : List Char) : Except Fault (List Char × List Char) := do
  let (tag, rest) ← tagChars (cs.length + 1) cs
  if tag.isEmpty then throw .yaml else pure (tag, rest)

/-- A handle: an exclamation mark alone, or a name, which may be empty, between two of them. -/
def takeHandle (cs : List Char) : Except Fault (List Char × List Char) :=
  match cs with
  | '!' :: rest =>
    if rest.head? = some ' ' then .ok (['!'], rest)
    else
      let name := rest.takeWhile isNameChar
      match rest.dropWhile isNameChar with
      | '!' :: rest => .ok ('!' :: name ++ ['!'], rest)
      | _ => .error .yaml
  | _ => .error .yaml

/-- The tag after its exclamation mark, up to where white space has to follow. -/
def tagBody (cs : List Char) : Except Fault (WrittenTag × List Char) :=
  match cs with
  | '<' :: rest => do
    let (suffix, rest) ← takeTag rest
    match rest with
    | '>' :: rest => pure (⟨none, suffix⟩, rest)
    | _ => throw .yaml
  | _ =>
    if isBlank (cs.headD endMark) then .ok (⟨none, ['!']⟩, cs)
    else if (cs.takeWhile fun c => !isSpaceOrEnd c).contains '!' then do
      let (handle, rest) ← takeHandle ('!' :: cs)
      let (suffix, rest) ← takeTag rest
      pure (⟨some handle, suffix⟩, rest)
    else do
      let (suffix, rest) ← takeTag cs
      pure (⟨some ['!'], suffix⟩, rest)

/-- A tag after its exclamation mark. -/
def readTag (cs : List Char) : Except Fault (WrittenTag × List Char) := do
  let (tag, rest) ← tagBody cs
  if isSpaceOrEnd (rest.headD endMark) then pure (tag, rest) else throw .yaml

/-! ## Directives -/

/-- A number of at least one digit. -/
def takeNumber (cs : List Char) : Except Fault (Nat × List Char) :=
  let ds := cs.takeWhile Char.isDigit
  if ds.isEmpty then .error .yaml
  else if !Decimal.isReadable ds then .error (.unreadableNumber ds.length)
  else .ok (Decimal.value ds, cs.dropWhile Char.isDigit)

/-- The two numbers of a version with a point between them. -/
def readVersion (cs : List Char) : Except Fault (Directive × List Char) := do
  let (major, rest) ← takeNumber (cs.dropWhile (· == ' '))
  match rest with
  | '.' :: rest =>
    let (_, rest) ← takeNumber rest
    if isSpaceOrEnd (rest.headD endMark) then pure (.version major, rest) else throw .yaml
  | _ => throw .yaml

/-- A handle and what it stands for. -/
def readHandle (cs : List Char) : Except Fault (Directive × List Char) := do
  let (name, rest) ← takeHandle (cs.dropWhile (· == ' '))
  if rest.head? ≠ some ' ' then throw .yaml
  let (expansion, rest) ← takeTag (rest.dropWhile (· == ' '))
  if isSpaceOrEnd (rest.headD endMark) then pure (.handle name expansion, rest) else throw .yaml

/-- A directive after its percent sign, with the line it stands on. -/
def readDirective (cs : List Char) : Except Fault (Directive × List Char) := do
  let (name, rest) ← takeName cs
  if !isSpaceOrEnd (rest.headD endMark) then throw .yaml
  let (directive, rest) ←
    if name = "YAML".toList then readVersion rest
    else if name = "TAG".toList then readHandle rest
    else pure (.other, rest.dropWhile fun c => !isBreakOrEnd c)
  pure (directive, ← restOfLine rest)

end EnumDecl.Yaml
