/-
  XmlRpc/Proofs/NumeralTexts.lean
  ===============================
  **The pieces of a numeral: blanks around it, a sign, and runs of digits.**

  What a text looks like is said here by how it is put together, without the functions
  that take it apart: a `Padded` text has blanks before and after something, a `Sign` is
  one of three short texts, and a text of `AllDigits` holds nothing else.  Beside each
  stands the lemma that the function of that name finds the piece again, whatever follows
  it (`trim_eq_of_padded`, `splitSign_append`, `splitDigits_append`), and that what it
  finds is such a piece.
-/
import XmlRpc.Proofs.IntegerTexts
import Mathlib.Data.List.TakeWhile
import Mathlib.Tactic.Ring

namespace XmlRpc

namespace Text

/-! ### Blanks around a text -/

/-- The text is `inner` with any blanks before and after it. -/
def Padded (inner text : List Char) : Prop :=
  ∃ before after, text = before ++ inner ++ after ∧
    (∀ c ∈ before, isBlank c = true) ∧ ∀ c ∈ after, isBlank c = true

theorem trimEnd_append_blanks {text blanks : List Char} (h : ∀ c ∈ blanks, isBlank c = true) :
    trimEnd (text ++ blanks) = trimEnd text := by
  have hblanks : ∀ c ∈ blanks.reverse, isBlank c = true := by
    intro c hc
    exact h c (List.mem_reverse.1 hc)
  rw [trimEnd, trimEnd, List.reverse_append, List.dropWhile_append_of_pos hblanks]

theorem padded_trim (text : List Char) : Padded (trim text) text := by
  let rest := text.dropWhile isBlank
  refine ⟨text.takeWhile isBlank, (rest.reverse.takeWhile isBlank).reverse, ?_, ?_, ?_⟩
  · have hrest : trim text ++ (rest.reverse.takeWhile isBlank).reverse = rest := by
      rw [trim, trimEnd, ← List.reverse_append, List.takeWhile_append_dropWhile,
        List.reverse_reverse]
    rw [List.append_assoc, hrest, List.takeWhile_append_dropWhile]
  · intro c hc
    exact List.all_eq_true.1 List.all_takeWhile c hc
  · intro c hc
    exact List.all_eq_true.1 List.all_takeWhile c (List.mem_reverse.1 hc)

/-- If nothing in a text is blank, it is what is left of it when blanks are put around it. -/
theorem trim_eq_of_padded {inner text : List Char} (h : Padded inner text)
    (hinner : ∀ c ∈ inner, isBlank c = false) : trim text = inner := by
  obtain ⟨before, after, rfl, hbefore, hafter⟩ := h
  rw [trim, List.append_assoc, List.dropWhile_append_of_pos hbefore]
  cases inner with
  | nil =>
    have hnone : after.dropWhile isBlank = [] := List.dropWhile_eq_nil_iff.2 hafter
    rw [List.nil_append, hnone]
    rfl
  | cons c rest =>
    have hc : isBlank c = false := hinner c List.mem_cons_self
    rw [List.cons_append, List.dropWhile_cons_of_neg (by simp [hc]), ← List.cons_append,
      trimEnd_append_blanks hafter]
    have hreverse : ∀ c' ∈ (c :: rest).reverse, isBlank c' = false := by
      intro c' hc'
      exact hinner c' (List.mem_reverse.1 hc')
    rw [trimEnd, dropWhile_isBlank hreverse, List.reverse_reverse]

end Text

namespace Numeral

/-! ### Signs -/

/-- A sign that may stand before digits, and whether it negates. -/
inductive Sign : List Char → Bool → Prop where
  | absent : Sign [] false
  | plus : Sign ['+'] false
  | minus : Sign ['-'] true

theorem Sign.not_blank {sign : List Char} {negative : Bool} (h : Sign sign negative) :
    ∀ c ∈ sign, Text.isBlank c = false := by
  cases h with
  | absent => exact List.forall_mem_nil _
  | plus => exact List.forall_mem_singleton.2 (by decide)
  | minus => exact List.forall_mem_singleton.2 (by decide)

/-- A text that begins with a sign has it taken off. -/
theorem splitSign_cases (text : List Char) :
    ∃ sign, Sign sign (splitSign text).1 ∧ text = sign ++ (splitSign text).2 := by
  unfold splitSign
  split
  · exact ⟨['-'], .minus, rfl⟩
  · exact ⟨['+'], .plus, rfl⟩
  · exact ⟨[], .absent, rfl⟩

/-- What begins with neither sign is what is left when a sign is taken off. -/
theorem splitSign_append {sign rest : List Char} {negative : Bool} (h : Sign sign negative)
    (hrest : ∀ c ∈ rest.head?, c ≠ '-' ∧ c ≠ '+') : splitSign (sign ++ rest) = (negative, rest) := by
  cases h with
  | plus => rfl
  | minus => rfl
  | absent =>
    rw [List.nil_append]
    unfold splitSign
    split
    · exact absurd rfl (hrest '-' rfl).1
    · exact absurd rfl (hrest '+' rfl).2
    · rfl

/-! ### Runs of digits -/

/-- Only ASCII digits. -/
def AllDigits (text : List Char) : Prop :=
  ∀ c ∈ text, c.isDigit = true

theorem AllDigits.not_blank {digits : List Char} (h : AllDigits digits) :
    ∀ c ∈ digits, Text.isBlank c = false := by
  intro c hc
  exact Text.isBlank_of_isDigit (h c hc)

theorem AllDigits.append {front back : List Char} (hfront : AllDigits front)
    (hback : AllDigits back) : AllDigits (front ++ back) := by
  intro c hc
  exact (List.mem_append.1 hc).elim (hfront c) (hback c)

theorem allDigits_digits (n : Nat) : AllDigits (digits n) :=
  fun _ hc => isDigit_of_mem_digits hc

theorem not_sign_of_isDigit {c : Char} (h : c.isDigit = true) : c ≠ '-' ∧ c ≠ '+' := by
  constructor <;> rintro rfl <;> exact absurd h (by decide)

theorem AllDigits.not_sign {digits : List Char} (h : AllDigits digits) :
    ∀ c ∈ digits.head?, c ≠ '-' ∧ c ≠ '+' := by
  intro c hc
  exact not_sign_of_isDigit (h c (List.mem_of_mem_head? hc))

theorem splitDigits_cases (text : List Char) :
    AllDigits (splitDigits text).1 ∧ text = (splitDigits text).1 ++ (splitDigits text).2 ∧
      ∀ c ∈ (splitDigits text).2.head?, c.isDigit = false := by
  refine ⟨?_, List.takeWhile_append_dropWhile.symm, ?_⟩
  · intro c hc
    exact List.all_eq_true.1 List.all_takeWhile c hc
  · intro c hc
    have hhead := List.head?_dropWhile_not Char.isDigit text
    rw [splitDigits, Option.mem_def] at hc
    rw [hc] at hhead
    exact hhead

theorem splitDigits_append {digits rest : List Char} (h : AllDigits digits)
    (hrest : ∀ c ∈ rest.head?, c.isDigit = false) :
    splitDigits (digits ++ rest) = (digits, rest) := by
  rw [splitDigits, List.takeWhile_append_of_pos h, List.dropWhile_append_of_pos h]
  cases rest with
  | nil => rw [List.takeWhile_nil, List.dropWhile_nil, List.append_nil]
  | cons c rest =>
    have hc : ¬c.isDigit = true := by simp [hrest c rfl]
    rw [List.takeWhile_cons_of_neg hc, List.dropWhile_cons_of_neg hc, List.append_nil]

/-! ### The value of digits -/

theorem value_append (front back : List Char) :
    value (front ++ back) = value front * 10 ^ back.length + value back := by
  rw [value, Nat.ofDigitChars_append, Nat.ofDigitChars_eq_ofDigitChars_zero, Nat.mul_comm]
  rfl

@[simp] theorem value_replicate_zero (k : Nat) : value (List.replicate k '0') = 0 := by
  rw [value, Nat.ofDigitChars_replicate_zero, Nat.mul_zero]

theorem allDigits_replicate_zero (k : Nat) : AllDigits (List.replicate k '0') := by
  intro c hc
  rw [List.eq_of_mem_replicate hc]
  rfl

end Numeral

end XmlRpc
