/-
  XmlRpc/Number/Double.lean
  =========================
  **Double-precision numbers, and the one nearest to a quotient.**

  A double is its 64 bits. The bits without the sign, read as a number, are its
  *magnitude*: they count the doubles from zero upwards, so the order of the
  finite doubles is the order of their magnitudes, and the magnitude after the
  last finite one is infinity. A finite double is `significand · 2 ^ exponent`
  with a significand below `2 ^ 53` and an exponent of at least `-1074`.

  Rounding finds, for a positive quotient of two naturals, the exponent at
  which the quotient has a significand of 53 bits (or the least exponent, for
  the subnormal ones), and rounds the quotient to a whole number of units at
  that exponent, a half going to the even neighbour. Adding the significand to
  the magnitude where its exponent begins carries into the next exponent, and
  into infinity, by itself.
-/
import XmlRpc.Number.Decimal

namespace XmlRpc

/-- A double-precision number, by its bits. -/
structure Double where
  bits : UInt64
deriving DecidableEq, Repr

namespace Double

/-- The weight of the sign bit, which is `2 ^ 63`. -/
def signBit : Nat := 0x8000000000000000

/-- The least significand of 53 bits, which is `2 ^ 52`; also how many doubles share an exponent. -/
def hiddenBit : Nat := 0x10000000000000

/-- The magnitude of infinity; the finite doubles have smaller ones. -/
def infiniteMagnitude : Nat := 0x7FF * hiddenBit

/-- The bits without the sign: how many doubles lie between zero and this one. -/
def magnitude (x : Double) : Nat :=
  x.bits.toNat % signBit

/-- Whether the sign bit is set. -/
def negative (x : Double) : Bool :=
  signBit ≤ x.bits.toNat

/-- The double with a given sign and magnitude. -/
def ofMagnitude (negative : Bool) (magnitude : Nat) : Double :=
  ⟨UInt64.ofNat (if negative then signBit + magnitude else magnitude)⟩

/-- Neither an infinity nor a NaN. -/
def isFinite (x : Double) : Bool :=
  x.magnitude < infiniteMagnitude

/-- Whether the bits denote no number at all. -/
def isNaN (x : Double) : Bool :=
  infiniteMagnitude < x.magnitude

/-- The whole number of units of a finite double. -/
def significand (x : Double) : Nat :=
  if x.magnitude < hiddenBit then x.magnitude else hiddenBit + x.magnitude % hiddenBit

/-- The exponent of the subnormal doubles. -/
def leastExponent : Int := -1074

/-- The power of two that is the unit of a finite double. -/
def exponent (x : Double) : Int :=
  if x.magnitude < hiddenBit then leastExponent else (x.magnitude / hiddenBit : Nat) - 1075

/-! ### Rounding to the nearest double -/

/-- The quotient rounded to a whole number, a half going to the even neighbour. -/
def roundQuotient (numerator denominator : Nat) : Nat :=
  let quotient := numerator / denominator
  let remainder := numerator % denominator
  if 2 * remainder < denominator then quotient
  else if denominator < 2 * remainder then quotient + 1
  else quotient + quotient % 2

/-- The greatest power of two that is not above a positive quotient.

    The difference of the two logarithms is right or one too large. -/
def floorLog2 (numerator denominator : Nat) : Int :=
  let guess := (numerator.log2 : Int) - denominator.log2
  if denominator * Nat.pow 2 guess.toNat ≤ numerator * Nat.pow 2 (-guess).toNat then guess
  else guess - 1

/-- The magnitude of the double nearest to a quotient; infinity if that is beyond the last one. -/
def nearestMagnitude (numerator denominator : Nat) : Nat :=
  if numerator = 0 then
    0
  else
    let normal := floorLog2 numerator denominator - 52
    let scale := if normal < leastExponent then leastExponent else normal
    let units := roundQuotient (numerator * Nat.pow 2 (-scale).toNat)
      (denominator * Nat.pow 2 scale.toNat)
    let magnitude := (scale - leastExponent).toNat * hiddenBit + units
    if magnitude < infiniteMagnitude then magnitude else infiniteMagnitude

/-- The double nearest to an integer. -/
def ofInt (k : Int) : Double :=
  ofMagnitude (k < 0) (nearestMagnitude k.natAbs 1)

/-- The magnitude of the double nearest to `coefficient · 10 ^ exponent`.

    A coefficient of `n` digits puts the number below `10 ^ (n + exponent)` and
    not below a tenth of it. Beyond `10 ^ 310` every number rounds to infinity
    and below `10 ^ (-330)` every number rounds to zero, so an exponent of any
    length costs nothing. -/
def decimalMagnitude (coefficient : Nat) (exponent : Int) : Nat :=
  let reach := exponent + (Numeral.digits coefficient).length
  if coefficient = 0 then 0
  else if 310 < reach then infiniteMagnitude
  else if reach < -330 then 0
  else nearestMagnitude (coefficient * Nat.pow 10 exponent.toNat) (Nat.pow 10 (-exponent).toNat)

/-- The double nearest to a decimal, with its sign. -/
def ofDecimal (d : Decimal) : Double :=
  ofMagnitude d.negative (decimalMagnitude d.coefficient d.exponent)

/-! ### Doubles that are not finite -/

/-- An infinity. -/
def infinity (negative : Bool) : Double :=
  ofMagnitude negative infiniteMagnitude

/-- What is not a number; the first bit after the exponent is set. -/
def nan (negative : Bool) : Double :=
  ofMagnitude negative (infiniteMagnitude + hiddenBit / 2)

/-- The double that a word stands for, in letters of any case and with a sign of its own. -/
def ofWord? (text : List Char) : Option Double :=
  let (negative, word) := Numeral.splitSign text
  let lower := word.map Char.toLower
  if lower = ['i', 'n', 'f'] ∨ lower = ['i', 'n', 'f', 'i', 'n', 'i', 't', 'y'] then
    some (infinity negative)
  else if lower = ['n', 'a', 'n'] then
    some (nan negative)
  else
    none

end Double

end XmlRpc
