/-
  XmlRpc/Node/Wire.lean
  =====================
  **The written form of a node.**

  A scalar is its escaped text under its tag. Every item of an array stands in a
  `value`, every item of a parameter list in a `param` around a `value`, and a
  line feed follows each; a member of a struct is its escaped name and its
  value, with nothing in between. Tags are written as they are.
-/
import XmlRpc.Markup.Entity
import XmlRpc.Markup.Tag
import XmlRpc.Node

namespace XmlRpc.Node

open Markup (tagged escape)

mutual

/-- The written form of a node. -/
def toWire : Node → String
  | scalar s => tagged s.tag (escape s.raw)
  | array items => tagged "array" (tagged "data" (arrayToWire items))
  | struct members => tagged "struct" (membersToWire members)
  | params items => tagged "params" (paramsToWire items)

/-- The written items of an array. -/
def arrayToWire : List Node → String
  | [] => ""
  | item :: rest => tagged "value" (toWire item) ++ "\n" ++ arrayToWire rest

/-- The written members of a struct. -/
def membersToWire : List (String × Node) → String
  | [] => ""
  | (name, child) :: rest =>
    tagged "member" (tagged "name" (escape name) ++ tagged "value" (toWire child))
      ++ membersToWire rest

/-- The written items of a parameter list. -/
def paramsToWire : List Node → String
  | [] => ""
  | item :: rest => tagged "param" (tagged "value" (toWire item)) ++ "\n" ++ paramsToWire rest

end

end XmlRpc.Node
