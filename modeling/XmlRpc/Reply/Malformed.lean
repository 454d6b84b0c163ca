/-
  XmlRpc/Reply/Malformed.lean
  ===========================
  **What a well-formed document may lack as a reply.**

  Each constructor is a link of the envelope, or of a value in it, that is not
  there. Documents that nest too deep are counted among them, for they may be
  well-formed otherwise.
-/
import XmlRpc.Markup.Document

namespace XmlRpc

/-- Why a document is no reply. -/
inductive Malformed where
  | missingMethodResponse
  | missingParams
  | missingParam
  | missingValue
  /-- A value with neither a child nor a text. -/
  | emptyValue
  | missingData
  /-- An entry of a sequence with neither a child nor a text. -/
  | emptyArrayItem
  | missingMemberValue (name : String)
  | malformedFault
  | tooDeep
deriving DecidableEq, Repr

/-- The words for what is missing. -/
def Malformed.message : Malformed → String
  | missingMethodResponse => "no methodResponse element"
  | missingParams => "cannot find params"
  | missingParam => "cannot find param"
  | missingValue => "cannot find value"
  | emptyValue => "value element has no content"
  | missingData => "array has no data element"
  | emptyArrayItem => "array item has no content"
  | missingMemberValue name => "struct member " ++ Text.quoted name ++ " has no value"
  | malformedFault => "fault has no faultString"
  | tooDeep => "elements nest deeper than " ++ Numeral.text Markup.maxDepth ++ " levels"

end XmlRpc
