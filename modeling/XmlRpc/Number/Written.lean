/-
  XmlRpc/Number/Written.lean
  ==========================
  **Written forms of a double.**

  Both forms show the shortest digits that read back. They differ in the
  decisions that a `NumberStyle` records: which of two equally near decimals is
  taken, for which powers of ten the digits are written out around a point, and
  whether a whole number keeps a point and a zero. A number that is not written
  out has one digit before the point and an exponent with a sign after `e`.
-/
import XmlRpc.Number.Shortest
import XmlRpc.Number.Integer

namespace XmlRpc

/-- The decisions of a written form of doubles. -/
structure NumberStyle where
  /-- Which of two equally near shortest decimals is written. -/
  tie : Tie
  /-- Whether digits whose first one stands for this power of ten are written out. -/
  writesOut : Int → Bool
  /-- Whether a whole number that is written out ends in a point and a zero. -/
  pointZero : Bool

namespace NumberStyle

/-- Scalars are written out at every size, and whole numbers without a point. -/
def payload : NumberStyle where
  tie := .up
  writesOut _ := true
  pointZero := false

/-- JSON writes out from `10 ^ (-5)` to below `10 ^ 16`, and its doubles always show a point or
    an exponent. -/
def json : NumberStyle where
  tie := .even
  writesOut power := -5 ≤ power && power ≤ 15
  pointZero := true

/-- The digits without the zeros at their end; a zero alone stays. -/
def significantDigits (coefficient : Nat) : List Char :=
  if coefficient = 0 then ['0']
  else ((Numeral.digits coefficient).reverse.dropWhile (· = '0')).reverse

/-- The digits around a point; the first one stands for `10 ^ power`. -/
def writtenOut (style : NumberStyle) (digits : List Char) (power : Int) : List Char :=
  if power < 0 then
    '0' :: '.' :: List.replicate (-power - 1).toNat '0' ++ digits
  else
    let wholeLength := power.toNat + 1
    if digits.length ≤ wholeLength then
      digits ++ List.replicate (wholeLength - digits.length) '0'
        ++ (if style.pointZero then ['.', '0'] else [])
    else
      digits.take wholeLength ++ '.' :: digits.drop wholeLength

/-- One digit, a point before the others if there are any, and the exponent. -/
def scientific (digits : List Char) (power : Int) : List Char :=
  let fraction := digits.drop 1
  digits.take 1 ++ (if fraction = [] then [] else '.' :: fraction)
    ++ 'e' :: (if power < 0 then '-' else '+') :: Numeral.digits power.natAbs

/-- The text of a decimal in a style. -/
def layout (style : NumberStyle) (d : Decimal) : List Char :=
  let digits := significantDigits d.coefficient
  let power := d.exponent + (Numeral.digits d.coefficient).length - 1
  let unsigned := if style.writesOut power then style.writtenOut digits power
    else scientific digits power
  if d.negative then '-' :: unsigned else unsigned

end NumberStyle

namespace Double

/-- Writes a finite double in a style. -/
def render (style : NumberStyle) (x : Double) : String :=
  String.ofList (style.layout (x.toDecimal style.tie))

/-- The word for a double that is not finite. -/
def nonFiniteName (x : Double) : String :=
  if x.isNaN then "NaN" else if x.negative then "-inf" else "inf"

/-- The double that a text without blanks denotes: the one nearest to a decimal, or that of a
    word. -/
def ofText? (text : List Char) : Option Double :=
  match Decimal.parse? text with
  | some d => some (ofDecimal d)
  | none => ofWord? text

/-- Reads a double, ignoring the blanks around it, if it is finite. -/
def parse? (text : String) : Option Double :=
  (ofText? (Text.trim text.toList)).filter isFinite

/-- What is read is finite. -/
theorem isFinite_of_parse? {text : String} {x : Double} (h : parse? text = some x) :
    x.isFinite = true :=
  (Option.filter_eq_some_iff.1 h).2

end Double

end XmlRpc
