/-
  XmlRpc/Node/Outline.lean
  ========================
  **A node as rows in document order, and as an indented listing.**

  The outline of a node lists the node and everything in it, each before its
  parts, with its depth and the label by which the row above reaches it. The
  listing shows one row after the other: a scalar with its tag and its quoted
  text, a composite with the number of its parts.
-/
import XmlRpc.Node

namespace XmlRpc

/-- How a row is reached from the composite around it. -/
inductive Label where
  /-- The outline begins here. -/
  | root
  /-- The position in a sequence. -/
  | index (position : Nat)
  /-- The name in a struct. -/
  | member (name : String)
deriving DecidableEq, Repr

/-- One node of an outline. -/
structure Row where
  depth : Nat
  label : Label
  node : Node
deriving Repr

namespace Node

mutual

/-- The rows of a node that stands at `depth` under `label`. -/
def rows (depth : Nat) (label : Label) : Node → List Row
  | scalar s => [⟨depth, label, scalar s⟩]
  | array items => ⟨depth, label, array items⟩ :: itemRows (depth + 1) 0 items
  | struct members => ⟨depth, label, struct members⟩ :: memberRows (depth + 1) members
  | params items => ⟨depth, label, params items⟩ :: itemRows (depth + 1) 0 items

/-- The rows of the items of a sequence, the first of which has the given position. -/
def itemRows (depth position : Nat) : List Node → List Row
  | [] => []
  | item :: rest => rows depth (.index position) item ++ itemRows depth (position + 1) rest

/-- The rows of the members of a struct. -/
def memberRows (depth : Nat) : List (String × Node) → List Row
  | [] => []
  | (name, child) :: rest => rows depth (.member name) child ++ memberRows depth rest

end

/-- The rows of a node, the node itself first. -/
def outline (node : Node) : List Row :=
  node.rows 0 .root

end Node

/-- The label as it stands before a row. -/
def Label.lead : Label → String
  | root => ""
  | index position => Numeral.text position ++ ": "
  | member name => name ++ ": "

/-- What a row says of its node. -/
def Node.summary : Node → String
  | scalar s => s.tag ++ " = " ++ Text.quoted s.raw
  | array items => "array (" ++ Numeral.text items.length ++ " items)"
  | struct members => "struct (" ++ Numeral.text members.length ++ " members)"
  | params items => "params (" ++ Numeral.text items.length ++ " items)"

/-- The line of a row: two spaces for each level, the label and the summary. -/
def Row.line (row : Row) : String :=
  String.ofList (List.replicate (2 * row.depth) ' ') ++ row.label.lead ++ row.node.summary ++ "\n"

/-- The listing of a node, one row after the other. -/
def Node.listing (node : Node) : String :=
  String.join (node.outline.map Row.line)

end XmlRpc
