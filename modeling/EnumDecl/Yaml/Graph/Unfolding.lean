import EnumDecl.Yaml.Graph.Filling

/-!
# The value of a graph

A graph whose nodes have become values is unfolded to a value, in which every collection and every
date has the mark of its number. What does not hold itself is unfolded once, however often it is
referred to. What does hold itself is unfolded along each way from the root until it is met again;
only what lies deeper than the arguments of annotations counts for that, so that a dump finds all
its fields in full.
-/

namespace EnumDecl.Yaml

namespace Filling

/-- The entries of a mapping as values. -/
def entryValues (s : Filling) (child : Nat → Value) (n : Nat) : List (Value × Value) :=
  mappingOf ((s.entries n).map fun e => (child e.1, child e.2))

/-- The pair of a mapping of one entry. -/
def pairOf (s : Filling) (child : Nat → Value) (n : Nat) : Value :=
  match s.entries n with
  | (k, v) :: _ => .pair (child k) (child v)
  | [] => .null

/-- The value of a vertex from those of its parts. -/
def assemble (s : Filling) (child : Nat → Value) (n : Nat) : Value :=
  match s.vertex n with
  | .sequence .sequence items => .marked (.part n) (.list (items.map child))
  | .sequence .pairs items => .marked (.part n) (.list (items.map (s.pairOf child)))
  | .mapping .mapping _ => .marked (.part n) (.mapping (s.entryValues child n))
  | .mapping .set _ => .marked (.part n) (.set ((s.entryValues child n).map (·.1)))
  | _ => (s.values.getD n none).getD .null

/-- The parts of a collection. -/
def parts (s : Filling) (n : Nat) : List Nat :=
  match s.vertex n with
  | .sequence .sequence items => items
  | .sequence .pairs items => items.flatMap fun i => (s.entries i).flatMap fun e => [e.1, e.2]
  | .mapping .mapping es => es.flatMap fun e => [e.1, e.2]
  | .mapping .set es => es.flatMap fun e => [e.1, e.2]
  | _ => []

/-! ## What does not hold itself -/

/-- The value of a vertex, if it was made and the values of all its parts are known. -/
def assemble? (s : Filling) (known : Array (Option Value)) (n : Nat) : Option Value :=
  if s.isMade n && (s.parts n).all fun i => (known.getD i none).isSome then
    some (s.assemble (fun i => (known.getD i none).getD .null) n)
  else none

/-- The values that are known after each vertex was looked at once, the last one first. -/
def assembleRound (s : Filling) (known : Array (Option Value)) : Array (Option Value) :=
  (List.range known.size).reverse.foldl (fun known n =>
    if (known.getD n none).isSome then known
    else known.setIfInBounds n (s.assemble? known n)) known

/-- How many values are known. -/
def knownCount (known : Array (Option Value)) : Nat := (known.filter Option.isSome).size

/-- The values of all vertices that do not hold themselves, nor anything that does. -/
def assembleAll (s : Filling) : (fuel : Nat) → Array (Option Value) → Array (Option Value)
  | 0, known => known
  | fuel + 1, known =>
    let more := s.assembleRound known
    if knownCount more = knownCount known then known else s.assembleAll fuel more

/-! ## What holds itself -/

/-- How deep the arguments of annotations lie in a dump: below the dump itself, the list of
members, a member, its annotations, one of them, and its argument. -/
def argumentDepth : Nat := 7

/-- The kind of a collection. -/
def kindOf (s : Filling) (n : Nat) : Value.Kind := ((s.values.getD n none).getD .null).kind

/-- The value of a vertex at some depth, inside the vertices in `around`. -/
def unfold (s : Filling) (known : Array (Option Value)) :
    (fuel depth : Nat) → (around : List Nat) → Nat → Value
  | 0, _, _, n => .again (.part n) (s.kindOf n)
  | fuel + 1, depth, around, n =>
    match known.getD n none with
    | some v => v
    | none =>
      if around.contains n then .again (.part n) (s.kindOf n)
      else
        let around := if argumentDepth ≤ depth then n :: around else around
        s.assemble (fun i => s.unfold known fuel (depth + 1) around i) n

/-- The value of a vertex. -/
def toValue (s : Filling) (root : Nat) : Value :=
  let size := s.vertices.size
  let known := s.assembleAll (size + 1) (Array.replicate size none)
  s.unfold known (size + argumentDepth + 1) 1 [] root

end Filling

/-- The value of a node by way of its graph. -/
def Node.graphValue (node : Node) : Except Fault Value := do
  let (root, laid) := lay node ⟨#[], []⟩
  let filling ← Filling.ofGraph laid.vertices root
  pure (filling.toValue root)

end EnumDecl.Yaml
