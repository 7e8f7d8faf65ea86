import EnumDecl.Yaml.Content

/-!
# Graphs of nodes

Where nodes are referred to, the tree of a document is a graph: a list of vertices, each of which
holds its parts by their numbers. Vertices are numbered from the start of the text on, a collection
before its parts, and a reference is the number of what it refers to. So one number is one thing,
wherever it stands.
-/

namespace EnumDecl.Yaml

/-- A node whose parts are other nodes by their numbers. -/
inductive Vertex
  | scalar (tag : Tag) (text : List Char)
  | sequence (tag : Tag) (items : List Nat)
  | mapping (tag : Tag) (entries : List (Nat × Nat))

namespace Vertex

instance : Inhabited Vertex := ⟨.scalar (.scalar .null) []⟩

/-- The tag of a vertex. -/
def tag : Vertex → Tag
  | .scalar t _ => t
  | .sequence t _ => t
  | .mapping t _ => t

/-- A vertex with another tag. -/
def withTag (t : Tag) : Vertex → Vertex
  | .scalar _ cs => .scalar t cs
  | .sequence _ items => .sequence t items
  | .mapping _ entries => .mapping t entries

/-- The entries of a mapping; anything else has none. -/
def entries : Vertex → List (Nat × Nat)
  | .mapping _ es => es
  | _ => []

end Vertex

/-! ## From trees to graphs -/

/-- The vertices so far, and the numbers of those that have names. -/
structure Laying where
  vertices : Array Vertex
  names : List (List Char × Nat)

namespace Laying

/-- The number of the next vertex. -/
def next (s : Laying) : Nat := s.vertices.size

/-- The same vertices and one more. -/
def push (s : Laying) (v : Vertex) : Laying := { s with vertices := s.vertices.push v }

/-- The same vertices with another one under a number. -/
def put (s : Laying) (n : Nat) (v : Vertex) : Laying :=
  { s with vertices := s.vertices.setIfInBounds n v }

/-- The number of the vertex of a name. -/
def number (s : Laying) (name : List Char) : Nat :=
  ((s.names.find? fun e => e.1 == name).map (·.2)).getD 0

end Laying

mutual

/-- The number of a node and the vertices after it was laid out. -/
def lay : Node → Laying → Nat × Laying
  | .scalar t cs, s => (s.next, s.push (.scalar t cs))
  | .sequence t items, s =>
    let (numbers, after) := layItems items (s.push (.sequence t []))
    (s.next, after.put s.next (.sequence t numbers))
  | .mapping t entries, s =>
    let (numbers, after) := layEntries entries (s.push (.mapping t []))
    (s.next, after.put s.next (.mapping t numbers))
  | .anchored name node, s => lay node { s with names := (name, s.next) :: s.names }
  | .reference name, s => (s.number name, s)

/-- `lay` for items one after another. -/
def layItems : List Node → Laying → List Nat × Laying
  | [], s => ([], s)
  | x :: xs, s =>
    let (first, s) := lay x s
    let (rest, s) := layItems xs s
    (first :: rest, s)

/-- `lay` for the keys and values of entries. -/
def layEntries : List (Node × Node) → Laying → List (Nat × Nat) × Laying
  | [], s => ([], s)
  | (k, v) :: es, s =>
    let (key, s) := lay k s
    let (value, s) := lay v s
    let (rest, s) := layEntries es s
    ((key, value) :: rest, s)

end

end EnumDecl.Yaml
