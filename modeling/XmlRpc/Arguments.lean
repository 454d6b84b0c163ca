/-
  XmlRpc/Arguments.lean
  =====================
  **Arguments from words.**

  A parameter list of scalars is built from pairs of a tag and a text, or from
  the same words one after the other. Words that do not pair up are refused
  before any tag is looked at; then the first tag that is not registered is.
-/
import XmlRpc.Node

namespace XmlRpc.Arguments

/-- One scalar for each pair of a registered tag and a text. -/
def ofPairs : List (String × String) → Except ValueError (List Node)
  | [] => .ok []
  | (tag, raw) :: rest => do
    let node ← Node.ofTag tag raw
    let nodes ← ofPairs rest
    return node :: nodes

/-- Pairs each word with the one after it; the last word is left over if their number is odd. -/
def pairUp : List String → List (String × String) × Option String
  | [] => ([], none)
  | [word] => ([], some word)
  | tag :: raw :: rest =>
    let (pairs, left) := pairUp rest
    ((tag, raw) :: pairs, left)

/-- One scalar for each tag and the text after it. -/
def ofWords (words : List String) : Except ValueError (List Node) :=
  match pairUp words with
  | (_, some tag) => .error (.unpairedArgument tag)
  | (pairs, none) => ofPairs pairs

end XmlRpc.Arguments
