/-
  XmlRpc/Number/Integer.lean
  ==========================
  **Integers of 64 bits and their texts.**

  The text of an integer is an optional sign and one or more ASCII digits,
  between blanks that do not count; its value has to lie in the range of 64
  bits with a sign. An integer is written without leading zeros, and with a
  minus if it is negative.
-/
import XmlRpc.Number.Numeral
import XmlRpc.Text.Blank

namespace XmlRpc.Integer

/-- The integer that a numeral without blanks denotes, of any size. -/
def ofNumeral? (text : List Char) : Option Int :=
  let (negative, digits) := Numeral.splitSign text
  if digits ≠ [] ∧ digits.all Char.isDigit then
    some (Numeral.signed negative (Numeral.value digits))
  else
    none

/-- The integer of 64 bits that is equal to `k`, if there is one: from `-2 ^ 63` to below
    `2 ^ 63`. -/
def ofInt? (k : Int) : Option Int64 :=
  if -0x8000000000000000 ≤ k ∧ k < 0x8000000000000000 then some (Int64.ofInt k) else none

/-- The integer of 64 bits that is nearest to `k`. -/
def clamp (k : Int) : Int64 :=
  if k < -0x8000000000000000 then Int64.minValue
  else if 0x8000000000000000 ≤ k then Int64.maxValue
  else Int64.ofInt k

/-- Reads an integer, ignoring the blanks around it. -/
def parse? (text : String) : Option Int64 :=
  (ofNumeral? (Text.trim text.toList)).bind ofInt?

/-- The numeral of an integer of any size. -/
def numeral (k : Int) : List Char :=
  if k < 0 then '-' :: Numeral.digits k.natAbs else Numeral.digits k.natAbs

/-- Writes an integer. -/
def render (k : Int64) : String :=
  String.ofList (numeral k.toInt)

/-- What is found in range has the value that was asked for. -/
theorem toInt_of_ofInt? {k : Int} {v : Int64} (h : ofInt? k = some v) : v.toInt = k := by
  unfold ofInt? at h
  split at h
  · next hk =>
    obtain rfl := Option.some.inj h
    exact Int64.toInt_ofInt_of_le (by simpa using hk.1) (by simpa using hk.2)
  · simp at h

end XmlRpc.Integer
