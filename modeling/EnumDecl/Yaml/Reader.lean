import EnumDecl.Yaml.Graph.Unfolding

/-!
# Reading YAML

The value of a text: its tokens, the tree of nodes they make, and what the nodes stand for. A tree
of plain parts is read as it stands, any other by way of its graph, which also finds the fault that
counts. A text without a document is nothing.
-/

namespace EnumDecl.Yaml

/-- The value of a node. -/
def Node.toValue (node : Node) : Except Fault Value :=
  match node.toValue? with
  | some v => .ok v
  | none => node.graphValue

/-- The value of the characters of a YAML text. -/
def readChars (cs : List Char) : Except Fault Value := do
  match ← Node.ofTokens (← tokens cs) with
  | some node => node.toValue
  | none => pure .null

/-- The value of a YAML text. -/
def read (text : String) : Except Fault Value := readChars text.toList

end EnumDecl.Yaml
