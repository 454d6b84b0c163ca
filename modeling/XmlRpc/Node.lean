/-
  XmlRpc/Node.lean
  ================
  **The values of a call: scalars, arrays, structs and parameter lists.**

  A node is a scalar or one of three composites. Arrays and parameter lists are
  sequences that differ in the way they are written; a struct has named members
  in order. Nodes are built by the constructors here, and changed by operations
  that give a new node or say which type of node refused.
-/
import XmlRpc.Members
import XmlRpc.Scalar

namespace XmlRpc

/-- A value. -/
inductive Node where
  | scalar (s : Scalar)
  | array (items : List Node)
  | struct (members : List (String × Node))
  | params (items : List Node)
deriving Repr, Inhabited

namespace Node

/-! ### Building scalars -/

/-- A scalar with a text under a registered tag. -/
def ofTag (tag raw : String) : Except ValueError Node :=
  (Scalar.ofTag tag raw).map scalar

/-- An empty scalar of a registered tag. -/
def emptyOfTag (tag : String) : Except ValueError Node :=
  ofTag tag ""

/-- A string. -/
def string (text : String) : Node :=
  scalar ⟨.string, text⟩

/-- An integer, as its numeral. -/
def integer (k : Int64) : Node :=
  scalar ⟨.integer, Integer.render k⟩

/-- A double, as its shortest numeral without an exponent; what is not finite has none. -/
def double (x : Double) : Except ValueError Node :=
  if x.isFinite then
    .ok (scalar ⟨.double, x.render NumberStyle.payload⟩)
  else
    .error (.notANumber ScalarKind.double.tag x.nonFiniteName)

/-- A truth value, as `1` or `0`. -/
def boolean (b : Bool) : Node :=
  scalar ⟨.boolean, if b then "1" else "0"⟩

/-! ### Looking at a node -/

/-- The name of the node's type, which is also the tag it is written under. -/
def typeName : Node → String
  | scalar s => s.tag
  | array _ => "array"
  | struct _ => "struct"
  | params _ => "params"

/-- Whether the node is made of other nodes. -/
def isComposite : Node → Bool
  | scalar _ => false
  | _ => true

/-- The scalar, if the node is one. -/
def toScalar? : Node → Option Scalar
  | scalar s => some s
  | _ => none

/-- The members, if the node is a struct. -/
def toMembers? : Node → Option (Members Node)
  | struct members => some members
  | _ => none

/-- The items of a sequence; a node of another type has none. -/
def items : Node → List Node
  | array items => items
  | params items => items
  | _ => []

/-- The member called `name`, if the node is a struct that has one. -/
def get? (node : Node) (name : String) : Option Node :=
  node.toMembers?.bind (Members.get? name)

/-! ### Changing a node -/

/-- Gives a scalar another text. -/
def setValue (node : Node) (raw : String) : Except ValueError Node :=
  match node with
  | scalar s => .ok (scalar { s with raw := raw })
  | other => .error (.invalidOperation other.typeName)

/-- Appends an item to a sequence. -/
def addChild (node child : Node) : Except ValueError Node :=
  match node with
  | array items => .ok (array (items ++ [child]))
  | params items => .ok (params (items ++ [child]))
  | other => .error (.invalidOperation other.typeName)

/-- Gives a member of a struct a value. -/
def addMember (node : Node) (name : String) (child : Node) : Except ValueError Node :=
  match node with
  | struct members => .ok (struct (Members.insert name child members))
  | other => .error (.invalidOperation other.typeName)

end Node

end XmlRpc
