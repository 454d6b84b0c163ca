/-
  XmlRpc/Call.lean
  ================
  **Calls: a method, its arguments, and the answer.**

  A call is written as one document with the escaped name of the method and the
  parameter list. The answer to it is read by `Call.answer`, whose errors are
  those of a call: a bad argument, or a reply that cannot be read.
-/
import XmlRpc.Arguments
import XmlRpc.Node.Equality
import XmlRpc.Node.Wire
import XmlRpc.Reply

namespace XmlRpc

/-- A method and the arguments it is called with. -/
structure Call where
  method : String
  params : List Node
deriving DecidableEq, Repr

namespace Call

/-- The path that calls are sent to. -/
def path : String := "/RPC2"

/-- The type of content of calls and replies. -/
def contentType : String := "text/xml"

/-- Why a call is not made, or not answered. -/
inductive Error where
  /-- An argument cannot be built. -/
  | value (error : ValueError)
  /-- The reply cannot be read. -/
  | reply (error : Reply.Error)
deriving DecidableEq, Repr

/-- The message that reports the error. -/
def Error.message : Error → String
  | value error => error.message
  | reply error => error.message

/-- A call without arguments. -/
def bare (method : String) : Call :=
  ⟨method, []⟩

/-- A call with one scalar for each pair of a tag and a text. -/
def ofPairs (method : String) (pairs : List (String × String)) : Except Error Call :=
  match Arguments.ofPairs pairs with
  | .ok params => .ok ⟨method, params⟩
  | .error error => .error (.value error)

/-- Appends an argument. -/
def push (call : Call) (argument : Node) : Call :=
  { call with params := call.params ++ [argument] }

/-- The document that makes the call. -/
def toWire (call : Call) : String :=
  "<?xml version=\"1.0\"?>"
    ++ Markup.tagged "methodCall"
      (Markup.tagged "methodName" (Markup.escape call.method) ++ (Node.params call.params).toWire)

/-- Reads the reply to a call. -/
def answer (body : String) : Except Error Response :=
  (Response.parse body).mapError .reply

end Call

end XmlRpc
