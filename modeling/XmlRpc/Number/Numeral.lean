/-
  XmlRpc/Number/Numeral.lean
  ==========================
  **Signs and runs of digits.**

  Integers and decimals are read from the same two pieces: an optional single
  sign, and a run of ASCII digits whose value is taken in base ten. Leading
  zeros are digits like any other.
-/

namespace XmlRpc.Numeral

/-- Takes one leading sign off a text; the flag says whether it was a minus. -/
def splitSign : List Char → Bool × List Char
  | '-' :: rest => (true, rest)
  | '+' :: rest => (false, rest)
  | text => (false, text)

/-- The digits at the front of a text, and what follows them. -/
def splitDigits (text : List Char) : List Char × List Char :=
  (text.takeWhile Char.isDigit, text.dropWhile Char.isDigit)

/-- The number that a run of digits denotes in base ten. -/
def value (digits : List Char) : Nat :=
  Nat.ofDigitChars 10 digits 0

/-- The number `n`, negated if the flag is set. -/
def signed (negative : Bool) (n : Nat) : Int :=
  if negative then -(n : Int) else n

/-- The digits of `n` in base ten, without leading zeros; zero has one digit. -/
def digits (n : Nat) : List Char :=
  Nat.toDigits 10 n

/-- The digits of `n` as a string. -/
def text (n : Nat) : String :=
  String.ofList (digits n)

/-- The digits of a run denote the number it was written from. -/
@[simp] theorem value_digits (n : Nat) : value (digits n) = n :=
  Nat.ofDigitChars_ten_toDigits

end XmlRpc.Numeral
