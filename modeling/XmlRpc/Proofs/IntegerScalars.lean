/-
  XmlRpc/Proofs/IntegerScalars.lean
  =================================
  **What the text of an integer means, for every text.**

  A text denotes an integer if it is an optional sign and digits, with blanks around them
  (`Integer.Denotes`).  Reading finds this integer, whatever its size
  (`ofNumeral?_eq_some_iff`), and keeps it exactly if it fits into 64 bits
  (`ofInt?_eq_some_iff`): the range is looked at once, at the value, so leading zeros and
  the one integer more below zero than above need no care.  From every other text there is
  no number to be had, as an integer or as a double (`value_integer_cases`).
-/
import XmlRpc.Proofs.NumeralTexts

namespace XmlRpc

namespace Integer

open Numeral (Sign AllDigits)

/-- A sign, if there is one, and at least one digit; `k` is the number that they denote. -/
inductive IsNumeral : List Char → Int → Prop where
  | intro {sign digits : List Char} {negative : Bool} (hsign : Sign sign negative)
      (hsome : digits ≠ []) (hdigits : AllDigits digits) :
      IsNumeral (sign ++ digits) (Numeral.signed negative (Numeral.value digits))

/-- The text is a numeral of `k` between blanks. -/
def Denotes (text : String) (k : Int) : Prop :=
  ∃ numeral, Text.Padded numeral text.toList ∧ IsNumeral numeral k

/-- The integers of 64 bits. -/
def InRange (k : Int) : Prop :=
  -2 ^ 63 ≤ k ∧ k ≤ 2 ^ 63 - 1

theorem IsNumeral.not_blank {numeral : List Char} {k : Int} (h : IsNumeral numeral k) :
    ∀ c ∈ numeral, Text.isBlank c = false := by
  obtain ⟨hsign, -, hdigits⟩ := h
  intro c hc
  exact (List.mem_append.1 hc).elim (hsign.not_blank c) (hdigits.not_blank c)

/-! ### Reading -/

theorem ofNumeral?_eq_some_iff {numeral : List Char} {k : Int} :
    ofNumeral? numeral = some k ↔ IsNumeral numeral k := by
  constructor
  · intro h
    obtain ⟨sign, hsign, heq⟩ := Numeral.splitSign_cases numeral
    unfold ofNumeral? at h
    simp only at h
    split at h
    · next hdigits =>
      cases h
      have hnumeral := IsNumeral.intro hsign hdigits.1 (List.all_eq_true.1 hdigits.2)
      rw [← heq] at hnumeral
      exact hnumeral
    · cases h
  · rintro ⟨hsign, hsome, hdigits⟩
    unfold ofNumeral?
    rw [Numeral.splitSign_append hsign hdigits.not_sign]
    exact if_pos ⟨hsome, List.all_eq_true.2 hdigits⟩

theorem ofInt?_eq_some_iff {k : Int} {v : Int64} : ofInt? k = some v ↔ v.toInt = k := by
  constructor
  · exact toInt_of_ofInt?
  · rintro rfl
    exact ofInt?_toInt v

theorem inRange_toInt (v : Int64) : InRange v.toInt := by
  have hlow : -0x8000000000000000 ≤ v.toInt := Int64.le_toInt v
  have hhigh : v.toInt < 0x8000000000000000 := Int64.toInt_lt v
  constructor <;> omega

/-- **A text is read as the integer that it denotes.** -/
theorem parse?_eq_some_iff {text : String} {v : Int64} :
    parse? text = some v ↔ Denotes text v.toInt := by
  rw [parse?, Option.bind_eq_some_iff]
  constructor
  · rintro ⟨k, hk, hv⟩
    rw [ofInt?_eq_some_iff.1 hv]
    exact ⟨_, Text.padded_trim _, ofNumeral?_eq_some_iff.1 hk⟩
  · rintro ⟨numeral, hpadded, hnumeral⟩
    rw [Text.trim_eq_of_padded hpadded hnumeral.not_blank]
    exact ⟨v.toInt, ofNumeral?_eq_some_iff.2 hnumeral, ofInt?_toInt v⟩

theorem parse?_eq_none {text : String} (h : ∀ k, Denotes text k → ¬InRange k) :
    parse? text = none := by
  rw [Option.eq_none_iff_forall_ne_some]
  intro v hv
  exact h v.toInt (parse?_eq_some_iff.1 hv) (inRange_toInt v)

end Integer

namespace Scalar

open Integer (Denotes InRange)

theorem value_integer_eq_iff {raw : String} {v : Int64} :
    value ⟨.integer, raw⟩ = .integer v ↔ Denotes raw v.toInt := by
  rw [← Integer.parse?_eq_some_iff, value]
  cases Integer.parse? raw <;> simp

/-- **The text of an integer is read exactly.**  An integer scalar has the value `k` if its text
    denotes `k` and `k` has 64 bits, and no other value; every other text is not a number, under
    the tag `i4` and with its blanks, and has no value as an integer or as a double.  Each integer
    of 64 bits, the least one too, is the value of the scalar that is made from it. -/
theorem value_integer_cases :
    (∀ raw k, (∃ v : Int64, v.toInt = k ∧ value ⟨.integer, raw⟩ = .integer v) ↔
      Denotes raw k ∧ InRange k) ∧
    (∀ raw, (∀ k, Denotes raw k → ¬InRange k) →
      value ⟨.integer, raw⟩ = .notANumber "i4" raw ∧
      toInteger ⟨.integer, raw⟩ = .error (.notANumber "i4" raw) ∧
      toDouble ⟨.integer, raw⟩ = .error (.notANumber "i4" raw)) ∧
    (∀ v : Int64, ∃ s, Node.integer v = .scalar s ∧ s.kind = .integer ∧
      s.value = .integer v ∧ s.toInteger = .ok v) := by
  refine ⟨?value, ?other, ?written⟩
  case value =>
    intro raw k
    constructor
    · rintro ⟨v, rfl, hv⟩
      exact ⟨value_integer_eq_iff.1 hv, Integer.inRange_toInt v⟩
    · rintro ⟨hk, hlow, hhigh⟩
      have hv : (Int64.ofInt k).toInt = k :=
        Int64.toInt_ofInt_of_le (by simpa using hlow) (by simp; omega)
      refine ⟨Int64.ofInt k, hv, value_integer_eq_iff.2 ?_⟩
      rw [hv]
      exact hk
  case other =>
    intro raw h
    have hvalue : value ⟨.integer, raw⟩ = .notANumber "i4" raw := by
      rw [value, Integer.parse?_eq_none h]
      rfl
    refine ⟨hvalue, ?_, ?_⟩
    · rw [toInteger, hvalue]
      rfl
    · rw [toDouble, hvalue]
      rfl
  case written =>
    intro v
    refine ⟨⟨.integer, Integer.render v⟩, rfl, rfl, ?_, toInteger_render v⟩
    rw [value, Integer.parse?_render]

/-- The least integer with zeros before it and blanks around it is read; its absolute value, one
    more than the greatest integer, is not. -/
theorem value_integer_cases_least :
    (∃ v : Int64, v.toInt = -2 ^ 63 ∧
      value ⟨.integer, "\u2003-009223372036854775808\n"⟩ = .integer v) ∧
    (∀ k, Denotes "9223372036854775808" k → ¬InRange k) ∧
    toInteger ⟨.integer, "9223372036854775808"⟩ =
      .error (.notANumber "i4" "9223372036854775808") := by
  obtain ⟨hvalue, hother, -⟩ := value_integer_cases
  have hnone : ∀ k, Denotes "9223372036854775808" k → ¬InRange k := by
    intro k hk hrange
    obtain ⟨v, -, hv⟩ := (hvalue _ k).2 ⟨hk, hrange⟩
    have hread : value ⟨.integer, "9223372036854775808"⟩ =
        .notANumber "i4" "9223372036854775808" := by decide
    rw [hread] at hv
    cases hv
  refine ⟨(hvalue _ _).2 ⟨⟨"-009223372036854775808".toList, ?_, ?_⟩, ?_⟩, hnone,
    (hother _ hnone).2.1⟩
  · exact ⟨['\u2003'], ['\n'], by decide, List.forall_mem_singleton.2 (by decide),
      List.forall_mem_singleton.2 (by decide)⟩
  · exact .intro .minus (by decide) (List.all_eq_true.1 (by decide))
  · constructor <;> decide

end Scalar

end XmlRpc
