/-
  XmlRpc/Reply.lean
  =================
  **Reading the reply to a call.**

  A reply is a value or a fault, and a fault wins wherever it stands. What
  cannot be read is reported with the cause and the whole text of the reply.
-/
import XmlRpc.Node.Equality
import XmlRpc.Reply.Fault

namespace XmlRpc

namespace Reply

/-- Why a text is no reply. -/
inductive Cause where
  /-- The text is no well-formed document. -/
  | xml (cause : Markup.IllFormed)
  /-- The document lacks something. -/
  | malformed (reason : Malformed)
deriving DecidableEq, Repr

/-- The cause that keeps a text from having an element tree. -/
def Cause.ofDocumentError : Markup.DocumentError → Cause
  | .illFormed cause => .xml cause
  | .tooDeep => .malformed .tooDeep

/-- A cause, and the text that was to be read. -/
structure Error where
  cause : Cause
  raw : String
deriving DecidableEq, Repr

/-- The message that reports the error. -/
def Error.message (error : Error) : String :=
  match error.cause with
  | .xml cause => "xml: " ++ cause.message ++ ": " ++ error.raw
  | .malformed reason => "malformed response (" ++ reason.message ++ "): " ++ error.raw

/-- The element tree of a reply. -/
def document (body : String) : Except Error Markup.Element :=
  (Markup.Element.parse body).mapError fun error => ⟨.ofDocumentError error, body⟩

/-- Reports what is missing together with the whole text. -/
def reported {α : Type} (body : String) (result : Except Malformed α) : Except Error α :=
  result.mapError fun reason => ⟨.malformed reason, body⟩

/-- The value of a reply, whether or not it carries a fault. -/
def decode (body : String) : Except Error Node := do
  let root ← document body
  reported body (decodeDocument root)

end Reply

/-- The outcome of a call that was answered. -/
inductive Response where
  | success (value : Node)
  | fault (reported : Fault)
deriving DecidableEq, Repr

/-- Reads a reply: its fault if it carries one, else its value. -/
def Response.parse (body : String) : Except Reply.Error Response := do
  let root ← Reply.document body
  match ← Reply.reported body (Fault.find? root) with
  | some found => return .fault found
  | none => return .success (← Reply.reported body (Reply.decodeDocument root))

end XmlRpc
