/-
  XmlRpc/Number/Shortest.lean
  ===========================
  **The decimal with the fewest digits that reads back as a given double.**

  For one digit, two digits and so on, the multiples of the last digit's power
  of ten form a grid, and the only candidates of that length are the two grid
  points around the double. The first grid on which one of them is read back as
  the double gives the digits; if both are, the nearer one does. Two that are
  equally near are told apart by a `Tie`, which each written form chooses.
-/
import XmlRpc.Number.Double

namespace XmlRpc

/-- Which of two equally near decimals is written. -/
inductive Tie where
  /-- The one farther from zero. -/
  | up
  /-- The one whose last digit is even. -/
  | even
deriving DecidableEq, Repr

namespace Double

/-- The greatest power of ten that is not above a positive quotient.

    The difference of the two lengths is right or one too large. -/
def floorLog10 (numerator denominator : Nat) : Int :=
  let guess := ((Numeral.digits numerator).length : Int) - (Numeral.digits denominator).length
  if denominator * Nat.pow 10 guess.toNat ≤ numerator * Nat.pow 10 (-guess).toNat then guess
  else guess - 1

/-- The numerator of a finite double's distance from zero. -/
def numerator (x : Double) : Nat :=
  x.significand * Nat.pow 2 x.exponent.toNat

/-- The denominator of a finite double's distance from zero. -/
def denominator (x : Double) : Nat :=
  Nat.pow 2 (-x.exponent).toNat

/-- The whole distance from zero in decimal digits: `5 ^ k` over `10 ^ k` stands for `2 ^ (-k)`. -/
def exactDecimal (x : Double) : Decimal :=
  { negative := x.negative
    coefficient := x.numerator * Nat.pow 5 (-x.exponent).toNat
    exponent := -((-x.exponent).toNat : Int) }

/-- The candidate below or above `x` on the grid of multiples of `10 ^ grid`, if one reads back. -/
def onGrid? (tie : Tie) (x : Double) (grid : Int) : Option Decimal :=
  let scaled := x.numerator * Nat.pow 10 (-grid).toNat
  let unit := x.denominator * Nat.pow 10 grid.toNat
  let below := scaled / unit
  let remainder := scaled % unit
  let readsBack (coefficient : Nat) : Bool := decimalMagnitude coefficient grid = x.magnitude
  let nearer :=
    if 2 * remainder < unit then below
    else if unit < 2 * remainder then below + 1
    else
      match tie with
      | .up => below + 1
      | .even => below + below % 2
  let choose (coefficient : Nat) : Decimal := ⟨x.negative, coefficient, grid⟩
  if readsBack nearer then some (choose nearer)
  else if readsBack below then some (choose below)
  else if readsBack (below + 1) then some (choose (below + 1))
  else none

/-- The shortest decimal that reads back as the finite double `x`.

    Seventeen digits are always enough; the exact decimal stands behind them. -/
def toDecimal (tie : Tie) (x : Double) : Decimal :=
  if x.magnitude = 0 then
    ⟨x.negative, 0, 0⟩
  else
    let leading := floorLog10 x.numerator x.denominator
    let found := (List.range 17).findSome? fun (extra : Nat) => onGrid? tie x (leading - extra)
    found.getD x.exactDecimal

end Double

end XmlRpc
