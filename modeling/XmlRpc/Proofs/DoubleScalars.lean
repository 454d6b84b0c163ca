/-
  XmlRpc/Proofs/DoubleScalars.lean
  ================================
  **What the text of a double means, for every text.**

  A text denotes a sign and a distance from zero if it is a decimal numeral with blanks around
  it (`Double.Denotes`).  The double that is read from it is the nearest one; in particular it
  has the sign of the text, also where it is zero.  Where there is no nearest finite double
  nothing is read, and nothing is read from a text that is no numeral, such as the words for
  infinity and for what is not a number (`value_double_cases`).
-/
import XmlRpc.Scalar
import XmlRpc.Proofs.DecimalTexts
import XmlRpc.Proofs.NearestDouble
import XmlRpc.Proofs.QuotientRounding

namespace XmlRpc

namespace Double

open Decimal (IsNumeral IsNumeralChar)
open Numeral (Sign)

/-- The text is a decimal numeral between blanks. -/
def Denotes (text : String) (negative : Bool) (q : ℚ) : Prop :=
  ∃ numeral, Text.Padded numeral text.toList ∧ IsNumeral numeral negative q

/-! ### Reading -/

/-- A word is never read as a finite double. -/
theorem isFinite_of_ofWord? {text : List Char} {x : Double} (h : ofWord? text = some x) :
    x.isFinite = false := by
  have hbeyond : ∀ m, infiniteMagnitude ≤ m → m < signBit → ∀ negative,
      (ofMagnitude negative m).isFinite = false := by
    intro m hlow hhigh negative
    rw [isFinite, magnitude_ofMagnitude hhigh]
    exact decide_eq_false (not_lt.2 hlow)
  unfold ofWord? at h
  simp only at h
  split at h
  · cases h
    exact hbeyond _ le_rfl infiniteMagnitude_lt _
  · split at h
    · cases h
      exact hbeyond _ (Nat.le_add_right _ _) (by decide) _
    · cases h

/-- The words do not matter, since nothing is kept of them. -/
theorem parse?_eq (text : String) :
    parse? text = ((Decimal.parse? (Text.trim text.toList)).map ofDecimal).filter isFinite := by
  rw [parse?, ofText?]
  rcases Decimal.parse? (Text.trim text.toList) with _ | d
  · rcases hword : ofWord? (Text.trim text.toList) with _ | x
    · rfl
    · exact Option.filter_some_neg (by simp [isFinite_of_ofWord? hword])
  · rfl

theorem distance_nonneg (d : Decimal) : 0 ≤ d.distance := by
  rw [Decimal.distance]
  positivity

theorem nearest_ofDecimal_iff {d : Decimal} {x : Double} :
    Nearest d.negative d.distance x ↔ ofDecimal d = x ∧ x.isFinite = true := by
  rw [nearest_ofMagnitude_iff (distance_nonneg d) (roundsTo_decimalMagnitude _ _), eq_comm]
  rfl

theorem denotes_iff {text : String} {negative : Bool} {q : ℚ} :
    Denotes text negative q ↔ ∃ d, Decimal.parse? (Text.trim text.toList) = some d ∧
      d.negative = negative ∧ d.distance = q := by
  rw [Decimal.exists_parse?_iff]
  constructor
  · rintro ⟨numeral, hpadded, hnumeral⟩
    rw [Text.trim_eq_of_padded hpadded fun c hc => (hnumeral.chars c hc).not_blank]
    exact hnumeral
  · exact fun h => ⟨_, Text.padded_trim _, h⟩

/-- A text denotes one number at most. -/
theorem Denotes.unique {text : String} {negative negative' : Bool} {q q' : ℚ}
    (h : Denotes text negative q) (h' : Denotes text negative' q') :
    negative = negative' ∧ q = q' := by
  obtain ⟨d, hd, rfl, rfl⟩ := denotes_iff.1 h
  obtain ⟨d', hd', rfl, rfl⟩ := denotes_iff.1 h'
  obtain rfl := Option.some.inj (hd.symm.trans hd')
  exact ⟨rfl, rfl⟩

/-- **A text is read as the finite double nearest to the number that it denotes.** -/
theorem parse?_eq_some_iff {text : String} {x : Double} :
    parse? text = some x ↔ ∃ negative q, Denotes text negative q ∧ Nearest negative q x := by
  rw [parse?_eq, Option.filter_eq_some_iff, Option.map_eq_some_iff]
  constructor
  · rintro ⟨⟨d, hd, hx⟩, hfinite⟩
    exact ⟨d.negative, d.distance, denotes_iff.2 ⟨d, hd, rfl, rfl⟩,
      nearest_ofDecimal_iff.2 ⟨hx, hfinite⟩⟩
  · rintro ⟨negative, q, hdenotes, hnearest⟩
    obtain ⟨d, hd, rfl, rfl⟩ := denotes_iff.1 hdenotes
    obtain ⟨hx, hfinite⟩ := nearest_ofDecimal_iff.1 hnearest
    exact ⟨⟨d, hd, hx⟩, hfinite⟩

/-- Below the overflow there is a nearest double, so a text that denotes such a number is read. -/
theorem exists_parse? {text : String} {negative : Bool} {q : ℚ} (h : Denotes text negative q)
    (hrange : q < overflow) : ∃ x, parse? text = some x := by
  obtain ⟨d, hd, rfl, rfl⟩ := denotes_iff.1 h
  have hfinite : (ofDecimal d).isFinite = true := by
    cases roundsTo_decimalMagnitude d.coefficient d.exponent with
    | finite hm _ =>
      rw [ofDecimal, isFinite_iff, magnitude_ofMagnitude (hm.trans infiniteMagnitude_lt)]
      exact hm
    | infinite _ hlarge => exact absurd hrange (not_lt.2 hlarge)
  exact ⟨_, parse?_eq_some_iff.2 ⟨_, _, h, nearest_ofDecimal_iff.2 ⟨rfl, hfinite⟩⟩⟩

theorem parse?_eq_none {text : String} (h : ∀ negative q, Denotes text negative q → overflow ≤ q) :
    parse? text = none := by
  rw [Option.eq_none_iff_forall_ne_some]
  intro x hx
  obtain ⟨negative, q, hdenotes, hnearest⟩ := parse?_eq_some_iff.1 hx
  exact absurd hnearest.inRange (not_lt.2 (h negative q hdenotes))

/-! ### Words -/

/-- The word is one for a double that is not finite, in letters of any case. -/
def NonFiniteWord (word : List Char) : Prop :=
  word.map Char.toLower ∈ ["inf".toList, "infinity".toList, "nan".toList]

theorem eq_of_toLower_eq_n {c : Char} (h : c.toLower = 'n') : c = 'n' ∨ c = 'N' := by
  rw [Char.toLower] at h
  split at h
  · have hval : c.val + 32 = 110 := congrArg Char.val h
    refine Or.inr (Char.ext ?_)
    exact (UInt32.add_left_inj 32).1 (hval.trans rfl)
  · exact Or.inl h

/-- Each of the words has a letter that stands in no numeral and is no blank. -/
theorem NonFiniteWord.letter {word : List Char} (h : NonFiniteWord word) :
    ∃ c ∈ word, ¬IsNumeralChar c ∧ Text.isBlank c = false := by
  have hall : ∀ name ∈ ["inf".toList, "infinity".toList, "nan".toList], 'n' ∈ name := by decide
  obtain ⟨c, hc, hlower⟩ := List.mem_map.1 (hall _ h)
  refine ⟨c, hc, ?_⟩
  unfold IsNumeralChar
  rcases eq_of_toLower_eq_n hlower with rfl | rfl <;> decide

theorem NonFiniteWord.not_denotes {sign word : List Char} {text : String} (h : NonFiniteWord word)
    (hpadded : Text.Padded (sign ++ word) text.toList) (negative : Bool) (q : ℚ) :
    ¬Denotes text negative q := by
  rintro ⟨numeral, ⟨before, after, htext, hbefore, hafter⟩, hnumeral⟩
  obtain ⟨c, hc, hletter, hblank⟩ := h.letter
  obtain ⟨before', after', htext', -, -⟩ := hpadded
  have hmem : c ∈ before ++ numeral ++ after := by
    rw [← htext, htext']
    exact List.mem_append_left _ (List.mem_append_right _ (List.mem_append_right _ hc))
  rcases List.mem_append.1 hmem with hmem | hmem
  · rcases List.mem_append.1 hmem with hmem | hmem
    · exact absurd (hbefore c hmem) (by simp [hblank])
    · exact hletter (hnumeral.chars c hmem)
  · exact absurd (hafter c hmem) (by simp [hblank])

end Double

namespace Scalar

open Double (Denotes Nearest NonFiniteWord overflow)

theorem value_double_eq_iff {raw : String} {x : Double} :
    value ⟨.double, raw⟩ = .double x ↔ Double.parse? raw = some x := by
  rw [value]
  cases Double.parse? raw <;> simp

theorem value_double_eq_notANumber {raw : String} (h : Double.parse? raw = none) :
    value ⟨.double, raw⟩ = .notANumber "double" raw := by
  rw [value, h]
  rfl

/-- **The text of a double is read exactly.**  A double scalar has the double as its value that is
    nearest to the number that its text denotes, a half going to the even one, and it has a value
    if that number is below the overflow.  Every other text is not a number, under the tag
    `double` and with its blanks, and has no value as an integer or as a double; this includes
    the words for infinity and for what is not a number. -/
theorem value_double_cases :
    (∀ raw x, value ⟨.double, raw⟩ = .double x ↔
      ∃ negative q, Denotes raw negative q ∧ Nearest negative q x) ∧
    (∀ raw negative q, Denotes raw negative q → q < overflow →
      ∃ x, value ⟨.double, raw⟩ = .double x) ∧
    (∀ raw, (∀ negative q, Denotes raw negative q → overflow ≤ q) →
      value ⟨.double, raw⟩ = .notANumber "double" raw ∧
      toInteger ⟨.double, raw⟩ = .error (.notANumber "double" raw) ∧
      toDouble ⟨.double, raw⟩ = .error (.notANumber "double" raw)) ∧
    (∀ raw sign word negative, Numeral.Sign sign negative → NonFiniteWord word →
      Text.Padded (sign ++ word) raw.toList →
      value ⟨.double, raw⟩ = .notANumber "double" raw) := by
  refine ⟨?value, ?read, ?other, ?words⟩
  case value =>
    intro raw x
    rw [value_double_eq_iff, Double.parse?_eq_some_iff]
  case read =>
    intro raw negative q hdenotes hrange
    obtain ⟨x, hx⟩ := Double.exists_parse? hdenotes hrange
    exact ⟨x, value_double_eq_iff.2 hx⟩
  case other =>
    intro raw h
    have hvalue := value_double_eq_notANumber (Double.parse?_eq_none h)
    refine ⟨hvalue, ?_, ?_⟩
    · rw [toInteger, hvalue]
      rfl
    · rw [toDouble, hvalue]
      rfl
  case words =>
    intro raw sign word negative _ hword hpadded
    refine value_double_eq_notANumber (Double.parse?_eq_none ?_)
    intro negative' q hdenotes
    exact absurd hdenotes (hword.not_denotes hpadded negative' q)

/-- Less than half the least double is the negative zero, half-way after `2 ^ 53` is the even double
    below; nothing is read beyond the overflow, and nothing from a word. -/
theorem value_double_cases_limits :
    Nearest true (2 * 10 ^ (-324 : ℤ)) ⟨0x8000000000000000⟩ ∧
    Nearest false 9007199254740993 ⟨0x4340000000000000⟩ ∧
    (∃ x, value ⟨.double, "9007199254740993"⟩ = .double x) ∧
    (∀ negative q, Denotes "1.8e308" negative q → overflow ≤ q) ∧
    toDouble ⟨.double, "1.8e308"⟩ = .error (.notANumber "double" "1.8e308") ∧
    value ⟨.double, "+Infinity\n"⟩ = .notANumber "double" "+Infinity\n" := by
  obtain ⟨hvalue, hread, hother, hwords⟩ := value_double_cases
  have htiny : Denotes " -2e-324" true (2 * 10 ^ (-324 : ℤ)) :=
    Double.denotes_iff.2 ⟨⟨true, 2, -324⟩, by decide, rfl, by simp [Decimal.distance]⟩
  have hhalf : Denotes "9007199254740993" false 9007199254740993 :=
    Double.denotes_iff.2
      ⟨⟨false, 9007199254740993, 0⟩, by decide +kernel, rfl, by simp [Decimal.distance]⟩
  have hlarge : ∀ negative q, Denotes "1.8e308" negative q → overflow ≤ q := by
    intro negative q hdenotes
    by_contra hrange
    obtain ⟨x, hx⟩ := hread _ _ _ hdenotes (not_le.1 hrange)
    have hnone : value ⟨.double, "1.8e308"⟩ = .notANumber "double" "1.8e308" := by
      decide +kernel
    rw [hnone] at hx
    cases hx
  refine ⟨?_, ?_, ?_, hlarge, (hother _ hlarge).2.2, ?_⟩
  · obtain ⟨_, _, hdenotes, hnearest⟩ :=
      (hvalue " -2e-324" ⟨0x8000000000000000⟩).1 (by decide +kernel)
    obtain ⟨rfl, rfl⟩ := hdenotes.unique htiny
    exact hnearest
  · obtain ⟨_, _, hdenotes, hnearest⟩ :=
      (hvalue "9007199254740993" ⟨0x4340000000000000⟩).1 (by decide +kernel)
    obtain ⟨rfl, rfl⟩ := hdenotes.unique hhalf
    exact hnearest
  · refine hread _ _ _ hhalf ?_
    calc (9007199254740993 : ℚ)
      _ < 2 ^ 54 := by norm_num
      _ ≤ 2 ^ 1023 := pow_le_pow_right₀ one_le_two (by norm_num)
      _ ≤ overflow := Double.two_pow_le_overflow
  · exact hwords _ ['+'] "Infinity".toList false .plus (by unfold NonFiniteWord; decide +kernel)
      ⟨[], ['\n'], by decide +kernel, List.forall_mem_nil _,
        List.forall_mem_singleton.2 (by decide)⟩

end Scalar

end XmlRpc
