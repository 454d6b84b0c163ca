/-
  XmlRpc/Node/Json.lean
  =====================
  **The JSON form of a node.**

  Sequences become arrays and structs become objects whose keys ascend. A scalar
  becomes what its text means; an unregistered one keeps its text as a string,
  and a numeral that does not mean a number becomes null, as does a double that
  is not finite.
-/
import XmlRpc.Json
import XmlRpc.Node

namespace XmlRpc

/-- The JSON value of a scalar. -/
def ScalarValue.toJson : ScalarValue → Json
  | string text => .string text
  | base64 text => .string text
  | integer k => .integer k
  | double x => if x.isFinite then .double x else .null
  | boolean b => .boolean b
  | unregistered _ raw => .string raw
  | notANumber _ _ => .null

namespace Node

mutual

/-- The JSON value of a node. -/
def toJson : Node → Json
  | scalar s => s.value.toJson
  | array items => .array (itemsToJson items)
  | params items => .array (itemsToJson items)
  | struct members => .sorted (membersToJson members)

/-- The JSON values of the items of a sequence. -/
def itemsToJson : List Node → List Json
  | [] => []
  | item :: rest => toJson item :: itemsToJson rest

/-- The members of a struct with their JSON values, in the order of the struct. -/
def membersToJson : List (String × Node) → List (String × Json)
  | [] => []
  | (name, child) :: rest => (name, toJson child) :: membersToJson rest

end

theorem itemsToJson_eq_map (items : List Node) : itemsToJson items = items.map toJson := by
  induction items with
  | nil => rfl
  | cons item rest ih => simp [itemsToJson, ih]

theorem membersToJson_eq_map (members : List (String × Node)) :
    membersToJson members = members.map fun member => (member.1, toJson member.2) := by
  induction members with
  | nil => rfl
  | cons member rest ih =>
    obtain ⟨name, child⟩ := member
    simp [membersToJson, ih]

end Node

end XmlRpc
