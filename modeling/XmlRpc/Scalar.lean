/-
  XmlRpc/Scalar.lean
  ==================
  **Scalars: a kind and the text it was given.**

  A scalar keeps its text verbatim and is read on demand. The kind says how: a
  string and a base64 text are the text itself, an integer and a double have to
  be numerals, and a boolean is true for exactly two texts. The registered tags
  name five kinds; a tag that a reply uses beyond these is kept as it is, so
  that nothing read is lost.
-/
import XmlRpc.Number.Cast
import XmlRpc.Number.Written
import XmlRpc.ValueError

namespace XmlRpc

/-- The kinds of scalar. -/
inductive ScalarKind where
  | string
  | integer
  | double
  | boolean
  | base64
  /-- A tag that is not registered. -/
  | unregistered (tag : String)
deriving DecidableEq, Repr

namespace ScalarKind

/-- The kind that a registered tag names; integers have three tags. -/
def ofTag? : String → Option ScalarKind
  | "string" => some .string
  | "i4" => some .integer
  | "int" => some .integer
  | "integer" => some .integer
  | "double" => some .double
  | "boolean" => some .boolean
  | "base64" => some .base64
  | _ => none

/-- The kind that a registered tag names; any other tag is an error. -/
def ofTag (tag : String) : Except ValueError ScalarKind :=
  match ofTag? tag with
  | some kind => .ok kind
  | none => .error (.unknownType tag)

/-- The kind of a scalar that a reply holds under `tag`. -/
def ofWireTag (tag : String) : ScalarKind :=
  (ofTag? tag).getD (.unregistered tag)

/-- The tag under which a scalar of this kind is written. -/
def tag : ScalarKind → String
  | string => "string"
  | integer => "i4"
  | double => "double"
  | boolean => "boolean"
  | base64 => "base64"
  | unregistered tag => tag

end ScalarKind

/-- A kind and the text as it was given. -/
structure Scalar where
  kind : ScalarKind
  raw : String
deriving DecidableEq, Repr

/-- What the text of a scalar means under its kind. -/
inductive ScalarValue where
  | string (text : String)
  | integer (value : Int64)
  | double (value : Double)
  | boolean (value : Bool)
  | base64 (text : String)
  | unregistered (tag raw : String)
  /-- The text of an integer or a double is no numeral, or its number is out of range. -/
  | notANumber (tag raw : String)
deriving DecidableEq, Repr

namespace Scalar

/-- A scalar of a registered tag. -/
def ofTag (tag raw : String) : Except ValueError Scalar :=
  (ScalarKind.ofTag tag).map fun kind => ⟨kind, raw⟩

/-- A scalar of any tag. -/
def ofWireTag (tag raw : String) : Scalar :=
  ⟨ScalarKind.ofWireTag tag, raw⟩

/-- The tag under which the scalar is written. -/
def tag (s : Scalar) : String :=
  s.kind.tag

/-- Whether a text is one of the two that mean true. -/
def meansTrue (raw : String) : Bool :=
  raw == "true" || raw == "1"

/-- Reads the text under the kind. -/
def value (s : Scalar) : ScalarValue :=
  match s.kind with
  | .string => .string s.raw
  | .base64 => .base64 s.raw
  | .boolean => .boolean (meansTrue s.raw)
  | .integer =>
    match Integer.parse? s.raw with
    | some k => .integer k
    | none => .notANumber s.tag s.raw
  | .double =>
    match Double.parse? s.raw with
    | some x => .double x
    | none => .notANumber s.tag s.raw
  | .unregistered tag => .unregistered tag s.raw

/-- The error of a scalar that has no number of the sort asked for. -/
def notANumber (s : Scalar) : ValueError :=
  .notANumber s.tag s.raw

/-- The scalar as an integer: integers, doubles that can be cast to one, and booleans as 0
    and 1. -/
def toInteger (s : Scalar) : Except ValueError Int64 :=
  match s.value with
  | .integer k => .ok k
  | .double x => if x.isInt64 then .ok x.toInt64 else .error s.notANumber
  | .boolean b => .ok (if b then 1 else 0)
  | _ => .error s.notANumber

/-- The scalar as a double: doubles, and integers rounded to the nearest double. -/
def toDouble (s : Scalar) : Except ValueError Double :=
  match s.value with
  | .double x => .ok x
  | .integer k => .ok (Double.ofInt k.toInt)
  | _ => .error s.notANumber

/-- The scalar as a truth value, by its text alone. -/
def toBool (s : Scalar) : Bool :=
  meansTrue s.raw

end Scalar

end XmlRpc
