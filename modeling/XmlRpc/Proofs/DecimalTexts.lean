/-
  XmlRpc/Proofs/DecimalTexts.lean
  ===============================
  **Which texts are decimal numerals, and the rational numbers that they denote.**

  A numeral is a sign, a mantissa and an exponent; only the mantissa has to be there, and
  the digits before or after its point may be missing, but not both (`IsNumeral`).  Its
  number is given as a sign and a distance from zero, since a negative zero is not the same
  numeral as zero.

  `parse?` accepts the numerals and nothing else, and the decimal it gives has the sign and
  the distance of the numeral (`exists_parse?_iff`).  It takes the pieces off in the order in
  which they stand, so the proof is one lemma for each piece, with what follows it.
-/
import XmlRpc.Number.Decimal
import XmlRpc.Proofs.NumeralTexts
import Mathlib

namespace XmlRpc.Decimal

open Numeral (Sign AllDigits)

/-! ### The grammar -/

/-- Nothing, or an exponent after `e` or `E`. -/
inductive IsExponent : List Char → Int → Prop where
  | absent : IsExponent [] 0
  | written {mark : Char} {sign digits : List Char} {negative : Bool}
      (hmark : mark = 'e' ∨ mark = 'E') (hsign : Sign sign negative) (hsome : digits ≠ [])
      (hdigits : AllDigits digits) :
      IsExponent (mark :: (sign ++ digits)) (Numeral.signed negative (Numeral.value digits))

/-- Digits with one point at most, and the digits on both sides of it. -/
inductive Mantissa : List Char → List Char → List Char → Prop where
  | plain {whole : List Char} (hwhole : AllDigits whole) : Mantissa whole whole []
  | pointed {whole fraction : List Char} (hwhole : AllDigits whole)
      (hfraction : AllDigits fraction) : Mantissa (whole ++ '.' :: fraction) whole fraction

/-- The number with these digits before and after the point. -/
def pointValue (whole fraction : List Char) : ℚ :=
  Numeral.value whole + Numeral.value fraction / 10 ^ fraction.length

theorem pointValue_eq (whole fraction : List Char) :
    pointValue whole fraction = Numeral.value (whole ++ fraction) / 10 ^ fraction.length := by
  have hten : (10 : ℚ) ^ fraction.length ≠ 0 := by positivity
  rw [pointValue, Numeral.value_append]
  push_cast
  field_simp

theorem pointValue_nil (whole : List Char) : pointValue whole [] = Numeral.value whole := by
  rw [pointValue_eq, List.append_nil, List.length_nil, pow_zero, div_one]

/-- A decimal numeral, its sign, and how far its number is from zero. -/
inductive IsNumeral : List Char → Bool → ℚ → Prop where
  | intro {sign mantissa whole fraction suffix : List Char} {negative : Bool} {exponent : Int}
      (hsign : Sign sign negative) (hmantissa : Mantissa mantissa whole fraction)
      (hsome : whole ++ fraction ≠ []) (hexponent : IsExponent suffix exponent) :
      IsNumeral (sign ++ (mantissa ++ suffix)) negative (pointValue whole fraction * 10 ^ exponent)

/-- How far the decimal is from zero. -/
def distance (d : Decimal) : ℚ :=
  d.coefficient * 10 ^ d.exponent

/-! ### The characters of a numeral -/

/-- What can stand in a numeral. -/
def IsNumeralChar (c : Char) : Prop :=
  c.isDigit = true ∨ c ∈ ['+', '-', '.', 'e', 'E']

theorem isNumeralChar_of_sign {sign : List Char} {negative : Bool} (h : Sign sign negative) :
    ∀ c ∈ sign, IsNumeralChar c := by
  intro c hc
  cases h with
  | absent => cases hc
  | plus => exact Or.inr (by simp_all)
  | minus => exact Or.inr (by simp_all)

theorem IsExponent.chars {text : List Char} {exponent : Int} (h : IsExponent text exponent) :
    ∀ c ∈ text, IsNumeralChar c := by
  intro c hc
  cases h with
  | absent => cases hc
  | written hmark hsign hsome hdigits =>
    rcases List.mem_cons.1 hc with rfl | hc
    · right
      rcases hmark with rfl | rfl <;> decide
    · exact (List.mem_append.1 hc).elim (isNumeralChar_of_sign hsign c) fun hc =>
        Or.inl (hdigits c hc)

theorem Mantissa.chars {text whole fraction : List Char} (h : Mantissa text whole fraction) :
    ∀ c ∈ text, IsNumeralChar c := by
  intro c hc
  cases h with
  | plain hwhole => exact Or.inl (hwhole c hc)
  | pointed hwhole hfraction =>
    rcases List.mem_append.1 hc with hc | hc
    · exact Or.inl (hwhole c hc)
    · rcases List.mem_cons.1 hc with rfl | hc
      · exact Or.inr (by decide)
      · exact Or.inl (hfraction c hc)

theorem IsNumeral.chars {text : List Char} {negative : Bool} {q : ℚ}
    (h : IsNumeral text negative q) : ∀ c ∈ text, IsNumeralChar c := by
  obtain ⟨hsign, hmantissa, -, hexponent⟩ := h
  intro c hc
  rcases List.mem_append.1 hc with hc | hc
  · exact isNumeralChar_of_sign hsign c hc
  · exact (List.mem_append.1 hc).elim (hmantissa.chars c) (hexponent.chars c)

theorem IsNumeralChar.not_blank {c : Char} (h : IsNumeralChar c) : Text.isBlank c = false := by
  rcases h with hdigit | hother
  · exact Text.isBlank_of_isDigit hdigit
  · simp only [List.mem_cons, List.not_mem_nil, or_false] at hother
    rcases hother with rfl | rfl | rfl | rfl | rfl <;> decide

/-! ### Exponents -/

theorem exponentPart?_eq_some_iff {text : List Char} {exponent : Int} :
    exponentPart? text = some exponent ↔ IsExponent text exponent := by
  constructor
  · intro h
    cases text with
    | nil =>
      cases h
      exact .absent
    | cons mark rest =>
      obtain ⟨sign, hsign, heq⟩ := Numeral.splitSign_cases rest
      simp only [exponentPart?] at h
      split at h
      · next hparts =>
        cases h
        obtain ⟨hmark, hsome, hdigits⟩ := hparts
        have hexponent := IsExponent.written hmark hsign hsome (List.all_eq_true.1 hdigits)
        rw [← heq] at hexponent
        exact hexponent
      · cases h
  · intro h
    cases h with
    | absent => rfl
    | written hmark hsign hsome hdigits =>
      simp only [exponentPart?, Numeral.splitSign_append hsign hdigits.not_sign]
      exact if_pos ⟨hmark, hsome, List.all_eq_true.2 hdigits⟩

/-- An exponent begins neither with a digit nor with a point, so it ends the mantissa. -/
theorem IsExponent.head {text : List Char} {exponent : Int} (h : IsExponent text exponent) :
    ∀ c ∈ text.head?, c.isDigit = false ∧ c ≠ '.' := by
  intro c hc
  cases h with
  | absent => cases hc
  | written hmark =>
    obtain rfl := Option.some.inj hc
    rcases hmark with rfl | rfl <;> decide

/-! ### Mantissas -/

theorem splitFraction_of_not_point {text : List Char} (h : ∀ c ∈ text.head?, c ≠ '.') :
    splitFraction text = ([], text) := by
  unfold splitFraction
  split
  · exact absurd rfl (h '.' rfl)
  · rfl

/-- Taking the digits off, then a point with digits, leaves what follows a mantissa. -/
theorem splitMantissa_cases (text : List Char) :
    ∃ mantissa, Mantissa mantissa (Numeral.splitDigits text).1
        (splitFraction (Numeral.splitDigits text).2).1 ∧
      text = mantissa ++ (splitFraction (Numeral.splitDigits text).2).2 := by
  obtain ⟨hwhole, htext, -⟩ := Numeral.splitDigits_cases text
  generalize Numeral.splitDigits text = parts at *
  obtain ⟨whole, tail⟩ := parts
  unfold splitFraction
  split
  · next rest htail =>
    obtain rfl : tail = '.' :: rest := htail
    obtain ⟨hfraction, hrest, -⟩ := Numeral.splitDigits_cases rest
    refine ⟨_, .pointed hwhole hfraction, ?_⟩
    rw [List.append_assoc, List.cons_append, ← hrest]
    exact htext
  · exact ⟨whole, .plain hwhole, htext⟩

section Append

variable {text whole fraction suffix : List Char}

/-- A mantissa is found again in front of what begins neither with a digit nor with a point. -/
theorem Mantissa.split_append (h : Mantissa text whole fraction)
    (hsuffix : ∀ c ∈ suffix.head?, c.isDigit = false ∧ c ≠ '.') :
    Numeral.splitDigits (text ++ suffix) = (whole, (text ++ suffix).drop whole.length) ∧
      splitFraction ((text ++ suffix).drop whole.length) = (fraction, suffix) := by
  cases h with
  | plain hwhole =>
    rw [List.drop_left]
    exact ⟨Numeral.splitDigits_append hwhole fun c hc => (hsuffix c hc).1,
      splitFraction_of_not_point fun c hc => (hsuffix c hc).2⟩
  | pointed hwhole hfraction =>
    rw [List.append_assoc, List.drop_left]
    refine ⟨Numeral.splitDigits_append hwhole ?_, ?_⟩
    · intro c hc
      obtain rfl := Option.some.inj hc
      decide
    · exact Numeral.splitDigits_append hfraction fun c hc => (hsuffix c hc).1

theorem Mantissa.not_sign (h : Mantissa text whole fraction) (hsome : whole ++ fraction ≠ []) :
    ∀ c ∈ (text ++ suffix).head?, c ≠ '-' ∧ c ≠ '+' := by
  intro c hc
  cases h with
  | plain hwhole =>
    rw [List.append_nil] at hsome
    rw [List.head?_append_of_ne_nil _ hsome] at hc
    exact hwhole.not_sign c hc
  | pointed hwhole hfraction =>
    cases whole with
    | nil =>
      obtain rfl := Option.some.inj hc
      decide
    | cons digit rest =>
      obtain rfl := Option.some.inj hc
      exact Numeral.not_sign_of_isDigit (hwhole digit List.mem_cons_self)

end Append

/-! ### Reading -/

theorem distance_eq (negative : Bool) (whole fraction : List Char) (exponent : Int) :
    distance ⟨negative, Numeral.value (whole ++ fraction), exponent - fraction.length⟩ =
      pointValue whole fraction * 10 ^ exponent := by
  rw [distance, pointValue_eq, zpow_sub₀ (by norm_num), zpow_natCast]
  ring

theorem isNumeral_of_parse? {text : List Char} {d : Decimal} (h : parse? text = some d) :
    IsNumeral text d.negative d.distance := by
  obtain ⟨sign, hsign, htext⟩ := Numeral.splitSign_cases text
  obtain ⟨mantissa, hmantissa, hrest⟩ := splitMantissa_cases (Numeral.splitSign text).2
  simp only [parse?] at h
  split at h
  · cases h
  · next hsome =>
    obtain ⟨exponent, hexponent, rfl⟩ := Option.map_eq_some_iff.1 h
    have hnumeral :=
      IsNumeral.intro hsign hmantissa hsome (exponentPart?_eq_some_iff.1 hexponent)
    rw [← hrest, ← htext] at hnumeral
    rw [distance_eq]
    exact hnumeral

theorem exists_parse?_of_isNumeral {text : List Char} {negative : Bool} {q : ℚ}
    (h : IsNumeral text negative q) :
    ∃ d, parse? text = some d ∧ d.negative = negative ∧ d.distance = q := by
  obtain ⟨hsign, hmantissa, hsome, hexponent⟩ := h
  obtain ⟨hdigits, hfraction⟩ := hmantissa.split_append hexponent.head
  refine ⟨_, ?_, rfl, distance_eq _ _ _ _⟩
  simp only [parse?, Numeral.splitSign_append hsign (hmantissa.not_sign hsome), hdigits, hfraction,
    if_neg hsome, exponentPart?_eq_some_iff.2 hexponent]
  rfl

/-- **The texts that are read as decimals are the numerals**, and what is read is the number that
    the numeral denotes. -/
theorem exists_parse?_iff {text : List Char} {negative : Bool} {q : ℚ} :
    (∃ d, parse? text = some d ∧ d.negative = negative ∧ d.distance = q) ↔
      IsNumeral text negative q := by
  constructor
  · rintro ⟨d, hd, rfl, rfl⟩
    exact isNumeral_of_parse? hd
  · exact exists_parse?_of_isNumeral

end XmlRpc.Decimal
