/-
  XmlRpc/Number/Decimal.lean
  ==========================
  **Decimal numbers and the texts that denote them.**

  A decimal is a sign, a coefficient and a power of ten. Its text is an
  optional sign, a mantissa with at least one digit and at most one point
  (which may stand first or last), and an optional exponent after `e` or `E`
  with a sign and digits of its own. The decimal is exact: reading rounds
  nothing, and a negative zero keeps its sign.
-/
import XmlRpc.Number.Numeral

namespace XmlRpc

/-- The number `± coefficient · 10 ^ exponent`. -/
structure Decimal where
  negative : Bool
  coefficient : Nat
  exponent : Int
deriving DecidableEq, Repr

namespace Decimal

/-- Reads what follows the mantissa: nothing, or an exponent that reaches the end. -/
def exponentPart? : List Char → Option Int
  | [] => some 0
  | mark :: rest =>
    let (negative, digits) := Numeral.splitSign rest
    if (mark = 'e' ∨ mark = 'E') ∧ digits ≠ [] ∧ digits.all Char.isDigit then
      some (Numeral.signed negative (Numeral.value digits))
    else
      none

/-- The digits after a point, if one stands first, and what follows them. -/
def splitFraction : List Char → List Char × List Char
  | '.' :: rest => Numeral.splitDigits rest
  | text => ([], text)

/-- Reads a decimal from the whole of a text. -/
def parse? (text : List Char) : Option Decimal :=
  let (negative, unsigned) := Numeral.splitSign text
  let (whole, afterWhole) := Numeral.splitDigits unsigned
  let (fraction, tail) := splitFraction afterWhole
  if whole ++ fraction = [] then
    none
  else
    (exponentPart? tail).map fun exponent =>
      { negative
        coefficient := Numeral.value (whole ++ fraction)
        exponent := exponent - fraction.length }

end Decimal

end XmlRpc
