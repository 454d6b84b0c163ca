/-
  XmlRpc/Proofs/IntegerTexts.lean
  ===============================
  **An integer that is written is read again.**

  The numeral of an integer is its digits, after a minus if it is negative.  None of
  these characters is a blank, so nothing is taken off the ends of a numeral
  (`trim_numeral`); the first of the digits is no sign, so the sign that is found is the one
  that was written (`ofNumeral?_numeral`).  The smallest integer needs no case of its
  own, because its absolute value is a natural number.
-/
import XmlRpc.Node

namespace XmlRpc

namespace Text

theorem isBlank_of_isDigit {c : Char} (h : c.isDigit = true) : isBlank c = false := by
  have hcode : 48 ≤ c.toNat ∧ c.toNat ≤ 57 := by
    simpa [Char.isDigit, UInt32.le_iff_toNat_le] using h
  rw [Bool.eq_false_iff]
  intro hblank
  obtain ⟨range, hrange, hlow, hhigh⟩ := Charset.contains_iff.1 hblank
  simp only [blanks, List.mem_cons, List.not_mem_nil, or_false] at hrange
  rcases hrange with rfl | rfl | rfl | rfl | rfl | rfl | rfl | rfl | rfl | rfl
  all_goals simp only at hlow hhigh; omega

theorem dropWhile_isBlank {text : List Char} (h : ∀ c ∈ text, isBlank c = false) :
    text.dropWhile isBlank = text := by
  cases text with
  | nil => rfl
  | cons c rest => rw [List.dropWhile_cons_of_neg (by simp [h c List.mem_cons_self])]

theorem trim_of_not_blank {text : List Char} (h : ∀ c ∈ text, isBlank c = false) :
    trim text = text := by
  rw [trim, dropWhile_isBlank h, trimEnd, dropWhile_isBlank, List.reverse_reverse]
  intro c hc
  exact h c (List.mem_reverse.1 hc)

end Text

namespace Numeral

theorem isDigit_of_mem_digits {n : Nat} {c : Char} (h : c ∈ digits n) : c.isDigit = true :=
  Nat.isDigit_of_mem_toDigits (by decide) (by decide) h

theorem digits_ne_nil (n : Nat) : digits n ≠ [] :=
  Nat.toDigits_ne_nil

theorem splitSign_digits (n : Nat) : splitSign (digits n) = (false, digits n) := by
  unfold splitSign
  split
  · next rest heq =>
    have hminus : ('-' : Char).isDigit = true :=
      isDigit_of_mem_digits (n := n) (by rw [heq]; exact List.mem_cons_self)
    exact absurd hminus (by decide)
  · next rest heq =>
    have hplus : ('+' : Char).isDigit = true :=
      isDigit_of_mem_digits (n := n) (by rw [heq]; exact List.mem_cons_self)
    exact absurd hplus (by decide)
  · rfl

end Numeral

namespace Integer

theorem trim_numeral (k : Int) : Text.trim (numeral k) = numeral k := by
  apply Text.trim_of_not_blank
  intro c hc
  unfold numeral at hc
  split at hc
  · rcases List.mem_cons.1 hc with rfl | hdigit
    · decide
    · exact Text.isBlank_of_isDigit (Numeral.isDigit_of_mem_digits hdigit)
  · exact Text.isBlank_of_isDigit (Numeral.isDigit_of_mem_digits hc)

theorem ofNumeral?_of_splitSign {text : List Char} {negative : Bool} {n : Nat}
    (h : Numeral.splitSign text = (negative, Numeral.digits n)) :
    ofNumeral? text = some (Numeral.signed negative n) := by
  have hall : (Numeral.digits n).all Char.isDigit = true :=
    List.all_eq_true.2 fun _ hc => Numeral.isDigit_of_mem_digits hc
  unfold ofNumeral?
  rw [h]
  change (if _ then _ else _) = _
  rw [if_pos ⟨Numeral.digits_ne_nil n, hall⟩, Numeral.value_digits]

theorem ofNumeral?_numeral (k : Int) : ofNumeral? (numeral k) = some k := by
  unfold numeral
  by_cases hneg : k < 0
  · rw [if_pos hneg, ofNumeral?_of_splitSign rfl, Numeral.signed, if_pos rfl]
    exact congrArg some (by omega)
  · rw [if_neg hneg, ofNumeral?_of_splitSign (Numeral.splitSign_digits _), Numeral.signed,
      if_neg (by decide)]
    exact congrArg some (by omega)

theorem ofInt?_toInt (k : Int64) : ofInt? k.toInt = some k := by
  have hlow : -0x8000000000000000 ≤ k.toInt := Int64.le_toInt k
  have hhigh : k.toInt < 0x8000000000000000 := Int64.toInt_lt k
  rw [ofInt?, if_pos ⟨hlow, hhigh⟩, Int64.ofInt_toInt]

/-- **Reading undoes writing.** -/
theorem parse?_render (k : Int64) : parse? (render k) = some k := by
  rw [parse?, render, String.toList_ofList, trim_numeral, ofNumeral?_numeral]
  exact ofInt?_toInt k

end Integer

theorem Scalar.toInteger_render (k : Int64) :
    toInteger ⟨.integer, Integer.render k⟩ = .ok k := by
  simp only [toInteger, value, Integer.parse?_render]

end XmlRpc
