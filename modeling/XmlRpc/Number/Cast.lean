/-
  XmlRpc/Number/Cast.lean
  ======================
  **Doubles compared, subtracted, cut at the point, and cast to integers.**

  These are the operations of the machine on the bits of a double, with their
  answers for infinities and NaNs. Doubles compare by their places in the order
  of the doubles, where both zeros have the same place and a NaN has none. A
  difference is the double nearest to the exact one. Cutting at the point clears
  the bits that stand for less than one, and the rest of the number is what the
  cut takes away. A cast to an integer drops the fraction and goes to an end of
  the range if the number is beyond it.
-/
import XmlRpc.Number.Double
import XmlRpc.Number.Integer

namespace XmlRpc.Double

/-- The positive zero. -/
def zero : Double := ⟨0⟩

/-- The double with the other sign. -/
def neg (x : Double) : Double :=
  ofMagnitude (!x.negative) x.magnitude

/-! ### Comparison -/

/-- The place of a double in the order of the doubles, with both zeros at 0. -/
def rank (x : Double) : Int :=
  Numeral.signed x.negative x.magnitude

/-- Whether two doubles are the same number; a NaN is no number. -/
def equals (x y : Double) : Bool :=
  !x.isNaN && !y.isNaN && x.rank == y.rank

/-- Whether a double is less than another or the same number. -/
def atMost (x y : Double) : Bool :=
  !x.isNaN && !y.isNaN && x.rank ≤ y.rank

/-- Whether a double is less than another. -/
def below (x y : Double) : Bool :=
  !x.isNaN && !y.isNaN && x.rank < y.rank

/-! ### Difference -/

/-- How many times the least positive double goes into a finite double, with the sign. -/
def units (x : Double) : Int :=
  Numeral.signed x.negative (x.significand * Nat.pow 2 (x.exponent - leastExponent).toNat)

/-- The double nearest to the difference of two finite ones; no difference is the negative zero
    only for the negative zero less the positive one. -/
def finiteSub (x y : Double) : Double :=
  let difference := x.units - y.units
  ofMagnitude (if difference = 0 then x.negative && !y.negative else difference < 0)
    (nearestMagnitude difference.natAbs (Nat.pow 2 (-leastExponent).toNat))

/-- The difference of two doubles; an infinity less itself is a NaN. -/
def sub (x y : Double) : Double :=
  if x.isNaN || y.isNaN then nan false
  else if x.isFinite then
    if y.isFinite then finiteSub x y else y.neg
  else if y.isFinite || x.negative != y.negative then x
  else nan false

/-! ### Cutting at the point -/

/-- The magnitude with the bits cleared that stand for less than one.

    From the exponent of 1 on, the unit of a double is `2 ^ (-52)` and doubles with each
    exponent, until it is one. -/
def truncMagnitude (magnitude : Nat) : Nat :=
  let exponent := magnitude / hiddenBit
  if exponent < 1023 then 0
  else if exponent < 1075 then magnitude - magnitude % Nat.pow 2 (1075 - exponent)
  else magnitude

/-- The double cut at the point, towards zero. -/
def trunc (x : Double) : Double :=
  ofMagnitude x.negative (truncMagnitude x.magnitude)

/-- What is cut off at the point. -/
def fract (x : Double) : Double :=
  x.sub x.trunc

/-! ### Casting -/

/-- The integer of 64 bits that a double is cast to: without its fraction, and the nearer end of
    the range if it is beyond it. A NaN becomes zero. -/
def toInt64 (x : Double) : Int64 :=
  if x.isNaN then 0
  else
    Integer.clamp (Numeral.signed x.negative
      (x.significand * Nat.pow 2 x.exponent.toNat / Nat.pow 2 (-x.exponent).toNat))

/-- `2 ^ 63`, the first double after the integers of 64 bits. -/
def int64Bound : Double := ⟨0x43E0000000000000⟩

/-- Whether a double has no fraction and lies from `-2 ^ 63` to below `2 ^ 63`. -/
def isInt64 (x : Double) : Bool :=
  x.fract.equals zero && int64Bound.neg.atMost x && x.below int64Bound

end XmlRpc.Double
