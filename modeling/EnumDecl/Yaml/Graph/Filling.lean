import EnumDecl.Yaml.Graph.Basic

/-!
# The order in which nodes become values

A collection is made before its parts: it is empty at first and filled later, after all collections
that were made before it. While a collection is filled its scalars are made at once, and so the
first fault is that of the part which lies least deep, and of several such parts the first one. A
vertex is made once.

A mapping is made ready before it is filled (`spread`). The entries under a key `<<` are taken over
from the mapping or the mappings there, which are made ready first: they come before all own
entries, and those of a mapping named first come last, so that they replace those of the others.
The key `=` becomes a text. Both changes stay, wherever else the mapping or the key is used.

A mapping with a tag for scalars has the text that it holds under the key `=`.
-/

namespace EnumDecl.Yaml

/-- How far the vertices of a graph have become values. -/
structure Filling where
  vertices : Array Vertex
  /-- The values of the scalars made so far; for a collection that was made, only its kind
  counts. -/
  values : Array (Option Value)
  /-- The collections to be filled, the latest first. -/
  waiting : List Nat

namespace Filling

/-- The vertex of a number. -/
def vertex (s : Filling) (n : Nat) : Vertex := s.vertices.getD n default

/-- The entries of a mapping. -/
def entries (s : Filling) (n : Nat) : List (Nat × Nat) := (s.vertex n).entries

/-- Tells whether a vertex has a tag. -/
def hasTag (s : Filling) (t : Tag) (n : Nat) : Bool := decide ((s.vertex n).tag = t)

/-- The same filling with another vertex under a number. -/
def put (s : Filling) (n : Nat) (v : Vertex) : Filling :=
  { s with vertices := s.vertices.setIfInBounds n v }

/-- The same filling with other entries of a mapping. -/
def putEntries (s : Filling) (n : Nat) (es : List (Nat × Nat)) : Filling :=
  s.put n (.mapping (s.vertex n).tag es)

/-- The same filling with the value of a vertex. -/
def record (s : Filling) (n : Nat) (v : Value) : Filling :=
  { s with values := s.values.setIfInBounds n (some v) }

/-! ## Making mappings ready -/

/-- Makes a text of a key that is the sign `=`. -/
def settleKey (s : Filling) (n : Nat) : Filling :=
  if s.hasTag (.scalar .value) n then s.put n ((s.vertex n).withTag (.scalar .text)) else s

/-- Makes texts of those keys of entries that are the sign `=`. -/
def settleKeys (s : Filling) (es : List (Nat × Nat)) : Filling :=
  es.foldl (fun s e => s.settleKey e.1) s

/-- Makes a mapping ready from its entry `index` on, the entries in `taken` having been taken over
so far. Each step leaves one key `<<` less in the graph, which bounds their number. -/
def spread : (fuel : Nat) → (n index : Nat) → (taken : List (Nat × Nat)) → Filling →
    Except Fault Filling
  | 0, _, _, _, _ => .error .yaml
  | fuel + 1, n, index, taken, s =>
    let es := s.entries n
    let ahead := es.drop index
    match ahead.findIdx? fun e => s.hasTag (.scalar .merge) e.1 with
    | none =>
      let s := s.settleKeys ahead
      .ok (if taken.isEmpty then s else s.putEntries n (taken ++ s.entries n))
    | some i =>
      let s := (s.settleKeys (ahead.take i)).putEntries n (es.eraseIdx (index + i))
      match ahead[i]? with
      | none => .error .yaml
      | some (_, source) =>
        match s.vertex source with
        | .mapping _ _ => do
          let s ← spread fuel source 0 [] s
          spread fuel n (index + i) (taken ++ s.entries source) s
        | .sequence _ items => do
          let start : List (List (Nat × Nat)) × Filling := ([], s)
          -- the parts are collected with the last one in front
          let (parts, s) ← items.foldlM (fun (parts, s) item =>
            match s.vertex item with
            | .mapping _ _ => do
              let s ← spread fuel item 0 [] s
              pure (s.entries item :: parts, s)
            | _ => throw .yaml) start
          spread fuel n (index + i) (taken ++ parts.flatten) s
        | .scalar _ _ => .error .yaml

/-- How many entries under a key `<<` there are. -/
def mergeCount (s : Filling) : Nat :=
  s.vertices.foldl (fun sum v =>
    sum + (v.entries.filter fun e => s.hasTag (.scalar .merge) e.1).length) 0

/-- Makes a mapping ready to be filled. -/
def ready (s : Filling) (n : Nat) : Except Fault Filling := spread (s.mergeCount + 2) n 0 [] s

/-! ## Making and filling -/

/-- The text of a vertex with a tag for scalars: its own, or the one under the key `=`. -/
def textOf (s : Filling) : (fuel : Nat) → Nat → Except Fault (List Char)
  | 0, _ => .error .yaml
  | fuel + 1, n =>
    match s.vertex n with
    | .scalar _ cs => .ok cs
    | .sequence _ _ => .error .yaml
    | .mapping _ es =>
      match es.find? fun e => s.hasTag (.scalar .value) e.1 with
      | some e => s.textOf fuel e.2
      | none => .error .yaml

/-- Tells whether a vertex is a scalar. -/
def isScalar (s : Filling) (n : Nat) : Bool :=
  match s.vertex n with
  | .scalar _ _ => true
  | _ => false

/-- The value of a vertex with a tag for scalars. -/
def valueOf (s : Filling) (form : Form) (n : Nat) : Except Fault Value := do
  let cs ← s.textOf (s.vertices.size + 1) n
  -- a date is read from the scalar itself
  if form = .timestamp && !s.isScalar n then throw (.notText .list)
  pure ((← scalarValue form cs).markedBy (.part n))

/-- The same filling with a collection that is to be filled. -/
def await (s : Filling) (n : Nat) (kind : Value.Kind) : Filling :=
  { s.record n (.again (.part n) kind) with waiting := n :: s.waiting }

/-- Tells whether a vertex was made. -/
def isMade (s : Filling) (n : Nat) : Bool := (s.values.getD n none).isSome

/-- Makes a vertex. -/
def make (s : Filling) (n : Nat) : Except Fault Filling :=
  if s.isMade n then .ok s
  else
    match (s.vertex n).tag with
    | .scalar form => (s.valueOf form n).map (s.record n)
    | .sequence => .ok (s.await n .list)
    | .pairs => .ok (s.await n .list)
    | .mapping => .ok (s.await n .mapping)
    | .set => .ok (s.await n .set)
    | .other _ => .error .yaml

/-- Makes a key, which has to be something that can be kept in a set. -/
def makeKey (s : Filling) (n : Nat) : Except Fault Filling := do
  let s ← s.make n
  if ((s.values.getD n none).getD .null).isHashable then pure s else throw .yaml

/-- Makes the parts of an entry of a mapping. -/
def makeEntry (s : Filling) (e : Nat × Nat) : Except Fault Filling := do
  let s ← s.makeKey e.1
  s.make e.2

/-- Makes the parts of a pair, which is a mapping of one entry. -/
def makePair (s : Filling) (n : Nat) : Except Fault Filling :=
  match s.vertex n with
  | .mapping _ [(k, v)] => do
    let s ← s.make k
    s.make v
  | _ => .error .yaml

/-- Fills a collection. -/
def fill (s : Filling) (n : Nat) : Except Fault Filling :=
  match s.vertex n with
  | .sequence .sequence items => items.foldlM make s
  | .sequence .pairs items => items.foldlM makePair s
  | .mapping .mapping _ | .mapping .set _ => do
    let s ← s.ready n
    (s.entries n).foldlM makeEntry s
  | _ => .error .yaml

/-- Fills all collections that wait, those that were made before others first. -/
def fillAll : (fuel : Nat) → Filling → Except Fault Filling
  | 0, s => .ok s
  | fuel + 1, s =>
    match s.waiting with
    | [] => .ok s
    | waiting => do
      let s ← waiting.reverse.foldlM fill { s with waiting := [] }
      fillAll fuel s

/-- The filling of a graph from one of its vertices on. -/
def ofGraph (vertices : Array Vertex) (root : Nat) : Except Fault Filling := do
  let s ← make ⟨vertices, Array.replicate vertices.size none, []⟩ root
  fillAll (vertices.size + 1) s

end Filling

end EnumDecl.Yaml
