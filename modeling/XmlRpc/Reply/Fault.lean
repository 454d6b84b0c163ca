/-
  XmlRpc/Reply/Fault.lean
  =======================
  **Faults: replies that report a failure of the call.**

  A document carries a fault if an element called `fault` stands anywhere in it.
  Its value has to be a struct whose `faultString` is a scalar; a `faultCode`
  that is an integer goes with it.
-/
import XmlRpc.Reply.Value

namespace XmlRpc

/-- A failure that was reported in place of a value. -/
structure Fault where
  code : Option Int64
  message : String
deriving DecidableEq, Repr

namespace Fault

/-- The notice that an action failed. -/
def describe (fault : Fault) (action : String) : String :=
  "Cannot complete " ++ action ++ " due to: " ++ fault.message

/-- The fault that a node stands for. -/
def ofNode? (node : Node) : Option Fault :=
  ((node.get? "faultString").bind Node.toScalar?).map fun text =>
    { code := ((node.get? "faultCode").bind Node.toScalar?).bind fun code => code.toInteger.toOption
      message := text.raw }

/-- The fault that an element called `fault` stands for. -/
def ofElement (fault : Markup.Element) : Except Malformed Fault :=
  match fault.child? "value" with
  | none => .error .malformedFault
  | some value =>
    match Reply.decodeValue value with
    | .error _ => .error .malformedFault
    | .ok node =>
      match ofNode? node with
      | none => .error .malformedFault
      | some fault => .ok fault

/-- The fault that a document carries, if it carries one. -/
def find? (document : Markup.Element) : Except Malformed (Option Fault) :=
  match document.find? "fault" with
  | none => .ok none
  | some fault => (ofElement fault).map some

end Fault

end XmlRpc
