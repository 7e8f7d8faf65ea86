import EnumDecl.Yaml.Token

/-!
# Nodes

The tokens of a document make a tree of nodes: scalars, sequences and mappings, each with a tag
that says what it stands for. An anchor names one node, an alias refers to the node that an anchor
before it names, and a node may refer to itself. A text is one document at most.

A block mapping or sequence that is not indented, but stands under a key, has no tokens around it;
a pair within the brackets of a sequence is a mapping of its own.
-/

namespace EnumDecl.Yaml

/-- What a node stands for. -/
inductive Tag
  | scalar (form : Form)
  | sequence
  | /-- A sequence of pairs, each written as a mapping of one entry. -/
    pairs
  | mapping
  | /-- A set, written as a mapping of which the keys count. -/
    set
  | other (name : String)
  deriving DecidableEq

/-- The tags of this schema by their names. -/
def knownTags : List (String × Tag) := [
  ("null", .scalar .null), ("bool", .scalar .bool), ("int", .scalar .int),
  ("float", .scalar .float),
  ("timestamp", .scalar .timestamp), ("binary", .scalar .bytes), ("merge", .scalar .merge),
  ("value", .scalar .value), ("str", .scalar .text), ("seq", .sequence), ("pairs", .pairs),
  ("omap", .pairs), ("map", .mapping), ("set", .set)]

/-- What the names of those tags begin with. -/
def tagStem : String := "tag:yaml.org,2002:"

/-- The tag of a name. -/
def Tag.ofName (name : String) : Tag :=
  match knownTags.find? fun t => tagStem ++ t.1 == name with
  | some t => t.2
  | none => .other name

/-- A tree of scalars, in which nodes may have names and be referred to. -/
inductive Node
  | scalar (tag : Tag) (text : List Char)
  | sequence (tag : Tag) (items : List Node)
  | mapping (tag : Tag) (entries : List (Node × Node))
  | anchored (name : List Char) (node : Node)
  | reference (name : List Char)

/-- The node where there is none. -/
def Node.missing : Node := .scalar (.scalar .null) []

/-- The tokens that remain, the names of nodes so far and the handles of tags. -/
structure Feed where
  tokens : List Token
  anchors : List (List Char)
  handles : List (List Char × List Char)

/-- The fault of tokens that are not what has to stand there. -/
def refusal : List Token → Fault
  | .failed fault :: _ => fault
  | _ => .yaml

/-- Fails where there is no further token to look at. -/
def look : List Token → Except Fault Unit
  | .failed fault :: _ => .error fault
  | _ => .ok ()

namespace Feed

/-- The same feed with other tokens. -/
def withTokens (f : Feed) (tokens : List Token) : Feed := { f with tokens := tokens }

/-- The node of an alias. -/
def refer (f : Feed) (name : List Char) : Except Fault Node :=
  if f.anchors.contains name then .ok (.reference name) else .error .yaml

/-- Announces the node that an anchor names. -/
def announce (f : Feed) : Option (List Char) → Except Fault Feed
  | none => .ok f
  | some name =>
    if f.anchors.contains name then .error .yaml else .ok { f with anchors := name :: f.anchors }

/-- The name of a tag: its suffix, behind what its handle stands for. -/
def tagName (f : Feed) (t : WrittenTag) : Except Fault (List Char) :=
  match t.handle with
  | none => .ok t.suffix
  | some h =>
    match f.handles.find? fun e => e.1 == h with
    | some e => .ok (e.2 ++ t.suffix)
    | none => .error .yaml

/-- The name of a tag, if there is one. -/
def tagName? (f : Feed) : Option WrittenTag → Except Fault (Option (List Char))
  | none => .ok none
  | some t => (f.tagName t).map some

end Feed

/-- The anchor and the tag of a node, in either order, and the tokens after them. A token that may
be the second one is looked at, one after both is not. -/
def properties (tokens : List Token) :
    Except Fault (Option (List Char) × Option WrittenTag × List Token) :=
  match tokens with
  | .anchor a :: .tag t :: rest => .ok (some a, some t, rest)
  | .tag t :: .anchor a :: rest => .ok (some a, some t, rest)
  | .anchor a :: rest => do
    look rest
    pure (some a, none, rest)
  | .tag t :: rest => do
    look rest
    pure (none, some t, rest)
  | _ => do
    look tokens
    pure (none, none, tokens)

/-- A node with its name, if it has one. -/
def Node.named (node : Node) : Option (List Char) → Node
  | none => node
  | some name => .anchored name node

/-- Tells whether a tag leaves it open what a node stands for. -/
def isOpenTag (name : Option (List Char)) : Bool := name.isNone || name == some ['!']

/-- The tag of a scalar: the given one, or else what a plain text stands for; quotes make a
text. -/
def scalarTag (name : Option (List Char)) (isPlain : Bool) (text : List Char) : Tag :=
  match name with
  | none => .scalar (if isPlain then resolve text else .text)
  | some ['!'] => .scalar (resolve text)
  | some n => Tag.ofName (String.ofList n)

/-- The tag of a collection: the given one, or else the usual one. -/
def collectionTag (name : Option (List Char)) (usual : Tag) : Tag :=
  match name with
  | some n => if isOpenTag name then usual else Tag.ofName (String.ofList n)
  | none => usual

/-- Where a node stands, which decides about the collections it may be. -/
inductive Position
  | /-- Within brackets: no block style. -/
    flow
  | /-- In a block sequence or at the top. -/
    block
  | /-- Under a key: also a sequence that is not indented. -/
    underKey
  deriving DecidableEq

/-- Tells whether no node begins with these tokens inside a block collection. -/
def endsEntry : List Token → Bool
  | .blockEntry :: _ => true
  | .blockEnd :: _ => true
  | _ => false

/-- Tells whether no node begins with these tokens inside a sequence that is not indented. -/
def endsIndentless : List Token → Bool
  | .blockEntry :: _ => true
  | .key :: _ => true
  | .value :: _ => true
  | .blockEnd :: _ => true
  | _ => false

/-- Tells whether no node begins with these tokens inside a block mapping. -/
def endsPair : List Token → Bool
  | .key :: _ => true
  | .value :: _ => true
  | .blockEnd :: _ => true
  | _ => false

/-- Tells whether no node begins with these tokens after a colon within brackets. -/
def endsFlowValue : List Token → Bool
  | .flowEntry :: _ => true
  | .flowSequenceEnd :: _ => true
  | .flowMappingEnd :: _ => true
  | _ => false

/-- Tells whether no node begins with these tokens after a question mark within brackets. -/
def endsFlowKey (tokens : List Token) : Bool :=
  match tokens with
  | .value :: _ => true
  | _ => endsFlowValue tokens

mutual

/-- The node at the front. -/
def readNode (position : Position) : (fuel : Nat) → Feed → Except Fault (Node × Feed)
  | 0, _ => .error .yaml
  | fuel + 1, f => do
    match f.tokens with
    | .aliasOf name :: rest => pure (← f.refer name, f.withTokens rest)
    | _ =>
      let (anchor, written, rest) ← properties f.tokens
      let name ← f.tagName? written
      look rest
      -- the name stands for the node already while the node is read
      let f ← (f.withTokens rest).announce anchor
      let (node, f) ← readContent position name (anchor.isSome || written.isSome) fuel f
      pure (node.named anchor, f)

/-- The node at the front after its properties; with them it may be missing. -/
def readContent (position : Position) (name : Option (List Char)) (mayMiss : Bool) :
    (fuel : Nat) → Feed → Except Fault (Node × Feed)
  | 0, _ => .error .yaml
  | fuel + 1, f => do
    let sequence (s : List Node × Feed) := (Node.sequence (collectionTag name .sequence) s.1, s.2)
    let mapping (m : List (Node × Node) × Feed) :=
      (Node.mapping (collectionTag name .mapping) m.1, m.2)
    match f.tokens, position with
    -- the dash is left to the items: there is no token that opens this sequence
    | .blockEntry :: _, .underKey => pure (sequence (← readIndentless fuel f))
    | .scalar text isPlain :: rest, _ =>
      pure (.scalar (scalarTag name isPlain text) text, f.withTokens rest)
    | .flowSequenceStart :: rest, _ =>
      pure (sequence (← readFlowItems true fuel (f.withTokens rest)))
    | .flowMappingStart :: rest, _ =>
      pure (mapping (← readFlowEntries true fuel (f.withTokens rest)))
    | .blockSequenceStart :: rest, .block | .blockSequenceStart :: rest, .underKey =>
      pure (sequence (← readItems fuel (f.withTokens rest)))
    | .blockMappingStart :: rest, .block | .blockMappingStart :: rest, .underKey =>
      pure (mapping (← readEntries fuel (f.withTokens rest)))
    | _, _ => if mayMiss then pure (.scalar (scalarTag name true []) [], f) else throw .yaml

/-- The items of a block sequence and its end. -/
def readItems : (fuel : Nat) → Feed → Except Fault (List Node × Feed)
  | 0, _ => .error .yaml
  | fuel + 1, f => do
    match f.tokens with
    | .blockEntry :: rest =>
      let f := f.withTokens rest
      let (item, f) ← if endsEntry rest then pure (Node.missing, f) else readNode .block fuel f
      let (items, f) ← readItems fuel f
      pure (item :: items, f)
    | .blockEnd :: rest => pure ([], f.withTokens rest)
    | tokens => throw (refusal tokens)

/-- The items of a sequence that is not indented; it ends before the first other token. -/
def readIndentless : (fuel : Nat) → Feed → Except Fault (List Node × Feed)
  | 0, _ => .error .yaml
  | fuel + 1, f => do
    match f.tokens with
    | .blockEntry :: rest =>
      let f := f.withTokens rest
      let (item, f) ← if endsIndentless rest then pure (Node.missing, f)
        else readNode .block fuel f
      let (items, f) ← readIndentless fuel f
      pure (item :: items, f)
    | tokens =>
      look tokens
      pure ([], f)

/-- The entries of a block mapping and its end; keys and values may be missing. -/
def readEntries : (fuel : Nat) → Feed → Except Fault (List (Node × Node) × Feed)
  | 0, _ => .error .yaml
  | fuel + 1, f => do
    match f.tokens with
    | .blockEnd :: rest => pure ([], f.withTokens rest)
    | .key :: rest =>
      let f := f.withTokens rest
      let (key, f) ← if endsPair rest then pure (Node.missing, f) else readNode .underKey fuel f
      let (value, f) ← readValue fuel f
      let (entries, f) ← readEntries fuel f
      pure ((key, value) :: entries, f)
    | tokens => throw (refusal tokens)

/-- The value after a key of a block mapping. -/
def readValue : (fuel : Nat) → Feed → Except Fault (Node × Feed)
  | 0, _ => .error .yaml
  | fuel + 1, f =>
    match f.tokens with
    | .value :: rest =>
      let f := f.withTokens rest
      if endsPair rest then .ok (Node.missing, f) else readNode .underKey fuel f
    | tokens => (look tokens).map fun _ => (Node.missing, f)

/-- The items of a sequence in brackets and its end. -/
def readFlowItems (first : Bool) : (fuel : Nat) → Feed → Except Fault (List Node × Feed)
  | 0, _ => .error .yaml
  | fuel + 1, f => do
    match f.tokens with
    | .flowSequenceEnd :: rest => pure ([], f.withTokens rest)
    | tokens =>
      let rest ← afterComma first tokens
      match rest with
      -- a comma may stand after the last item
      | .flowSequenceEnd :: rest => pure ([], f.withTokens rest)
      -- a pair among the items is a mapping of one entry
      | .key :: rest =>
        let f := f.withTokens rest
        let (key, f) ← if endsFlowKey rest then pure (Node.missing, f) else readNode .flow fuel f
        let (value, f) ← readFlowValue fuel f
        let (items, f) ← readFlowItems false fuel f
        pure (.mapping .mapping [(key, value)] :: items, f)
      | _ =>
        let (item, f) ← readNode .flow fuel (f.withTokens rest)
        let (items, f) ← readFlowItems false fuel f
        pure (item :: items, f)

/-- The entries of a mapping in braces and its end. -/
def readFlowEntries (first : Bool) : (fuel : Nat) → Feed → Except Fault (List (Node × Node) × Feed)
  | 0, _ => .error .yaml
  | fuel + 1, f => do
    match f.tokens with
    | .flowMappingEnd :: rest => pure ([], f.withTokens rest)
    | tokens =>
      let rest ← afterComma first tokens
      match rest with
      | .flowMappingEnd :: rest => pure ([], f.withTokens rest)
      | .key :: rest =>
        let f := f.withTokens rest
        let (key, f) ← if endsFlowKey rest then pure (Node.missing, f) else readNode .flow fuel f
        let (value, f) ← readFlowValue fuel f
        let (entries, f) ← readFlowEntries false fuel f
        pure ((key, value) :: entries, f)
      -- a node without a colon after it is a key without a value
      | _ =>
        let (key, f) ← readNode .flow fuel (f.withTokens rest)
        let (entries, f) ← readFlowEntries false fuel f
        pure ((key, Node.missing) :: entries, f)

/-- The value after a key within brackets. -/
def readFlowValue : (fuel : Nat) → Feed → Except Fault (Node × Feed)
  | 0, _ => .error .yaml
  | fuel + 1, f =>
    match f.tokens with
    | .value :: rest =>
      let f := f.withTokens rest
      if endsFlowValue rest then .ok (Node.missing, f) else readNode .flow fuel f
    | tokens => (look tokens).map fun _ => (Node.missing, f)

/-- The tokens after the comma that has to stand before every item but the first. -/
def afterComma (first : Bool) (tokens : List Token) : Except Fault (List Token) :=
  if first then .ok tokens
  else
    match tokens with
    | .flowEntry :: rest => .ok rest
    | _ => .error (refusal tokens)

end

/-! ## Documents -/

/-- The handles that need no directive. -/
def defaultHandles : List (List Char × List Char) := [(['!'], ['!']), (['!', '!'], tagStem.toList)]

/-- The handles of the directives before a document, and the tokens after them. A version may be
given once, and has to be the first one; a handle may be defined once. -/
def readDirectives (versioned : Bool) (handles : List (List Char × List Char)) :
    List Token → Except Fault (List (List Char × List Char) × List Token)
  | .directive (.version major) :: rest =>
    if versioned || major ≠ 1 then .error .yaml else readDirectives true handles rest
  | .directive (.handle name expansion) :: rest =>
    if handles.any fun h => h.1 == name then .error .yaml
    else readDirectives versioned (handles ++ [(name, expansion)]) rest
  | .directive .other :: rest => readDirectives versioned handles rest
  | rest => .ok (handles, rest)

/-- Tells whether a document that was announced is empty. -/
def endsDocument : List Token → Bool
  | [] => true
  | .directive _ :: _ => true
  | .documentStart :: _ => true
  | .documentEnd :: _ => true
  | _ => false

/-- The node of a document that may be empty. -/
def readDocument (handles : List (List Char × List Char)) (tokens : List Token) :
    Except Fault (Node × Feed) :=
  readNode .block (4 * tokens.length + 4) ⟨tokens, [], handles ++ defaultHandles⟩

/-- Tells whether a token is the mark of the end of a document. -/
def Token.isDocumentEnd : Token → Bool
  | .documentEnd => true
  | _ => false

/-- Fails unless nothing but marks of the end of a document remains; of a second document only the
directives are looked at. -/
def expectEnd (tokens : List Token) : Except Fault Unit :=
  match tokens.dropWhile Token.isDocumentEnd with
  | [] => .ok ()
  | rest => do
    let (_, rest) ← readDirectives false [] rest
    throw (refusal rest)

/-- The node of a text, which is `none` if it holds no document. -/
def Node.ofTokens (tokens : List Token) : Except Fault (Option Node) := do
  match tokens with
  | [] => pure none
  | .directive _ :: _ | .documentStart :: _ =>
    let (handles, rest) ← readDirectives false [] tokens
    match rest with
    | .documentStart :: rest =>
      if endsDocument rest then
        expectEnd rest
        pure (some Node.missing)
      else
        let (node, f) ← readDocument handles rest
        expectEnd f.tokens
        pure (some node)
    | _ => throw (refusal rest)
  | _ =>
    let (node, f) ← readDocument [] tokens
    expectEnd f.tokens
    pure (some node)

end EnumDecl.Yaml
