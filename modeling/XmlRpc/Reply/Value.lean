/-
  XmlRpc/Reply/Value.lean
  =======================
  **The node that an element of a reply stands for.**

  A `value` stands for what its first child says, or for a string if it holds
  only text. The name of a typed element selects the kind of node: `array` reads
  the entries of its `data`, `params` its own entries, `struct` its members, and
  any other name is the tag of a scalar.

  Readers of replies are lenient where writers differ. An entry may have any
  name, and one more `value` around what it holds is looked through; members and
  entries are taken from all children, whatever they are called; a member without
  a name has the empty one; and of two members with one name the later counts.
-/
import XmlRpc.Node
import XmlRpc.Reply.Malformed

namespace XmlRpc.Reply

open Markup (Element)

/-- The text of the `name` among the parts of a member; without one the name is empty. -/
def memberName (parts : List Element) : String :=
  ((parts.find? fun part => part.name = "name").map Element.text).getD ""

theorem memberName_cons (part : Element) (rest : List Element) :
    memberName (part :: rest) = if part.name = "name" then part.text else memberName rest := by
  by_cases h : part.name = "name" <;> simp [memberName, h]

mutual

/-- The node of a `value`. -/
def decodeValue : Element → Except Malformed Node
  | ⟨_, _, typed :: _⟩ => decodeTyped typed
  | ⟨_, text, []⟩ => if text = "" then .error .emptyValue else .ok (.string text)

/-- The node of a typed element. -/
def decodeTyped : Element → Except Malformed Node
  | ⟨name, text, children⟩ =>
    if name = "array" then (decodeData children).map .array
    else if name = "params" then (decodeEntries children).map .params
    else if name = "struct" then
      (decodeMembers children).map fun members => .struct (Members.ofList members)
    else .ok (.scalar (Scalar.ofWireTag name text))

/-- The nodes of the entries of the first `data` among the parts of an array. -/
def decodeData : List Element → Except Malformed (List Node)
  | [] => .error .missingData
  | ⟨name, _, entries⟩ :: rest => if name = "data" then decodeEntries entries else decodeData rest

/-- The nodes of the entries of a sequence, or the first reason against one of them. -/
def decodeEntries : List Element → Except Malformed (List Node)
  | [] => .ok []
  | entry :: rest => do
    let node ← decodeEntry entry
    let nodes ← decodeEntries rest
    return node :: nodes

/-- The node of an entry of a sequence. A `value` that comes first in it is looked through. -/
def decodeEntry : Element → Except Malformed Node
  | ⟨_, _, inner :: _⟩ => if inner.name = "value" then decodeValue inner else decodeTyped inner
  | ⟨_, text, []⟩ => if text = "" then .error .emptyArrayItem else .ok (.string text)

/-- The names and nodes of the members of a struct as they are mentioned, or the first reason
    against one of them. -/
def decodeMembers : List Element → Except Malformed (List (String × Node))
  | [] => .ok []
  | ⟨_, _, parts⟩ :: rest => do
    let node ← decodeMemberValue (memberName parts) parts
    let members ← decodeMembers rest
    return (memberName parts, node) :: members

/-- The node of the first `value` among the parts of the member `name`. -/
def decodeMemberValue (name : String) : List Element → Except Malformed Node
  | [] => .error (.missingMemberValue name)
  | part :: rest => if part.name = "value" then decodeValue part else decodeMemberValue name rest

end

/-- The node of the reply in a document: the value of the first parameter. -/
def decodeDocument (document : Element) : Except Malformed Node :=
  match document.find? "methodResponse" with
  | none => .error .missingMethodResponse
  | some response =>
    match response.child? "params" with
    | none => .error .missingParams
    | some params =>
      match params.child? "param" with
      | none => .error .missingParam
      | some param =>
        match param.child? "value" with
        | none => .error .missingValue
        | some value => decodeValue value

end XmlRpc.Reply
