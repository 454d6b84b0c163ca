/-
  XmlRpc/Json.lean
  ================
  **JSON values and their indented text.**

  Objects keep their members in the order of the list. `sorted` builds one whose
  keys ascend, the later of two equal keys replacing the earlier. The text puts
  every item and every member on a line of its own, two spaces deeper than the
  brackets around it; an empty array or object stays on one line. In a string
  the quote, the backslash and the characters below the space are escaped, the
  latter by a letter where there is one, and all others stand for themselves.
-/
import XmlRpc.Number.Written

namespace XmlRpc

/-- A JSON value. -/
inductive Json where
  | null
  | boolean (value : Bool)
  | integer (value : Int64)
  | double (value : Double)
  | string (text : String)
  | array (items : List Json)
  | object (members : List (String × Json))
deriving Repr, Inhabited

namespace Json

/-! ### Objects in the order of their keys -/

/-- Puts a member where its key belongs, in the place of an equal key if there is one. -/
def insertSorted (key : String) (value : Json) : List (String × Json) → List (String × Json)
  | [] => [(key, value)]
  | (other, old) :: rest =>
    if key < other then (key, value) :: (other, old) :: rest
    else if key = other then (key, value) :: rest
    else (other, old) :: insertSorted key value rest

/-- An object whose keys ascend. -/
def sorted (members : List (String × Json)) : Json :=
  object (members.foldl (fun done member => insertSorted member.1 member.2 done) [])

/-! ### Text -/

/-- One character as it stands in a string. -/
def escapeChar (c : Char) : List Char :=
  if c = '\x22' then ['\\', '\x22']
  else if c = '\\' then ['\\', '\\']
  else if c = '\x08' then ['\\', 'b']
  else if c = '\x0c' then ['\\', 'f']
  else if c = '\n' then ['\\', 'n']
  else if c = '\r' then ['\\', 'r']
  else if c = '\t' then ['\\', 't']
  else if c.toNat < 0x20 then
    ['\\', 'u', '0', '0'] ++ [Nat.digitChar (c.toNat / 16), Nat.digitChar (c.toNat % 16)]
  else [c]

/-- A string in its quotes. -/
def quoted (text : String) : String :=
  String.ofList ('\x22' :: text.toList.flatMap escapeChar ++ ['\x22'])

/-- The spaces before a line at a depth. -/
def indent (depth : Nat) : String :=
  String.ofList (List.replicate (2 * depth) ' ')

/-- Lines between brackets, each but the last followed by a comma; `depth` is that of the
    brackets. -/
def bracketed (opening closing : String) (depth : Nat) (lines : List String) : String :=
  if lines = [] then
    opening ++ closing
  else
    opening ++ "\n" ++ String.intercalate ",\n" (lines.map (indent (depth + 1) ++ ·))
      ++ "\n" ++ indent depth ++ closing

mutual

/-- The text of a value whose brackets stand at `depth`. -/
def pretty (depth : Nat) : Json → String
  | null => "null"
  | boolean true => "true"
  | boolean false => "false"
  | integer k => Integer.render k
  | double x => x.render NumberStyle.json
  | string text => quoted text
  | array items => bracketed "[" "]" depth (prettyItems (depth + 1) items)
  | object members => bracketed "\x7b" "\x7d" depth (prettyMembers (depth + 1) members)

/-- The texts of the items of an array. -/
def prettyItems (depth : Nat) : List Json → List String
  | [] => []
  | item :: rest => pretty depth item :: prettyItems depth rest

/-- The texts of the members of an object. -/
def prettyMembers (depth : Nat) : List (String × Json) → List String
  | [] => []
  | (key, value) :: rest =>
    (quoted key ++ ": " ++ pretty depth value) :: prettyMembers depth rest

end

/-- The indented text of a value. -/
def render (json : Json) : String :=
  json.pretty 0

end Json

end XmlRpc
