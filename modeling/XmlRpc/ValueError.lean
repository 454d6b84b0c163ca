/-
  XmlRpc/ValueError.lean
  ======================
  **What can go wrong when a value is built or read.**

  Each constructor is one cause with the facts that its message shows. The
  wording is in `ValueError.message` alone.
-/
import XmlRpc.Text.Quoted

namespace XmlRpc

/-- The reasons to refuse an operation on values. -/
inductive ValueError where
  /-- A scalar was asked for under a tag that is not registered. -/
  | unknownType (tag : String)
  /-- The node of this type has no place for what was given to it. -/
  | invalidOperation (typeName : String)
  /-- The text of a scalar denotes no number that the reader can return. -/
  | notANumber (tag raw : String)
  /-- A list of alternating tags and texts ends with a tag. -/
  | unpairedArgument (tag : String)
deriving DecidableEq, Repr

/-- The message that reports the error. -/
def ValueError.message : ValueError → String
  | unknownType tag => "unknown scalar type: " ++ tag
  | invalidOperation typeName => "cannot set a value on composite node: " ++ typeName
  | notANumber tag raw => "not a number for " ++ tag ++ ": " ++ Text.quoted raw
  | unpairedArgument tag => "argument of type " ++ tag ++ " has no value"

end XmlRpc
