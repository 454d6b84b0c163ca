/-
  XmlRpc/Proofs/WholeDoubles.lean
  ===============================
  **Doubles as integers, and integers as doubles.**

  A double is given as an integer exactly if its value is a whole number of 64 bits
  (`toInteger_double_iff`), because that is when it may be cast to one.  So nothing is cut off,
  nothing is moved to an end of the range, and both zeros are the integer zero.

  The other way, an integer is rounded to the double nearest to it, and up to `2 ^ 53` it is
  itself the value of a double (`exists_valueAt`).  A scalar that has both views therefore has
  the same number in both, as far as doubles go (`numeric_views_agree`).
-/
import XmlRpc.Proofs.Casting
import XmlRpc.Proofs.DoubleScalars

namespace XmlRpc

namespace Double

/-! ### Integers that are the value of a double -/

/-- A positive number up to `2 ^ 53` has a multiple by a power of two that is a significand. -/
theorem exists_significand {n : Nat} (hpos : 0 < n) (hn : n ≤ 2 ^ 53) :
    ∃ shift ≤ 52, hiddenBit ≤ n * 2 ^ shift ∧ n * 2 ^ shift ≤ 2 * hiddenBit := by
  have hbit : hiddenBit = 2 ^ 52 := by norm_num [hiddenBit]
  have hlow := Nat.log2_self_le hpos.ne'
  have hhigh := Nat.lt_log2_self (n := n)
  rw [hbit, ← pow_succ']
  rcases le_or_gt n.log2 52 with hlog | hlog
  · refine ⟨52 - n.log2, Nat.sub_le _ _, ?_, ?_⟩
    · calc 2 ^ 52
        _ = 2 ^ n.log2 * 2 ^ (52 - n.log2) := by rw [← pow_add, Nat.add_sub_cancel' hlog]
        _ ≤ n * 2 ^ (52 - n.log2) := Nat.mul_le_mul_right _ hlow
    · calc n * 2 ^ (52 - n.log2)
        _ ≤ 2 ^ (n.log2 + 1) * 2 ^ (52 - n.log2) := Nat.mul_le_mul_right _ hhigh.le
        _ = 2 ^ (52 + 1) := by
          rw [← pow_add]
          congr 1
          omega
  · refine ⟨0, Nat.zero_le _, ?_, ?_⟩
    · rw [pow_zero, mul_one]
      exact (Nat.pow_le_pow_right two_pos hlog.le).trans hlow
    · rw [pow_zero, mul_one]
      exact hn

/-- **Up to `2 ^ 53` every whole number is the value of a finite double.** -/
theorem exists_valueAt {n : Nat} (hn : n ≤ 2 ^ 53) :
    ∃ m < infiniteMagnitude, valueAt m = n := by
  rcases n.eq_zero_or_pos with rfl | hpos
  · exact ⟨0, infiniteMagnitude_pos, by rw [valueAt_zero, Nat.cast_zero]⟩
  obtain ⟨shift, hshift, hlow, hhigh⟩ := exists_significand hpos hn
  have hexponent : ((1074 - shift : Nat) : ℤ) + leastExponent = -(shift : ℤ) := by
    rw [leastExponent]
    omega
  refine ⟨(1074 - shift) * hiddenBit + n * 2 ^ shift, ?_, ?_⟩
  · rw [infiniteMagnitude]
    rw [hiddenBit] at *
    omega
  · rw [valueAt_grid (Or.inr hlow) hhigh, hexponent, zpow_neg, zpow_natCast]
    push_cast
    exact mul_inv_cancel_right₀ (by positivity) _

/-! ### The double nearest to an integer -/

/-- The double is finite and nearest to the number, a half going to the even one.  Of the two zeros
    each is nearest to zero. -/
def NearestTo (q : ℚ) (x : Double) : Prop :=
  ∃ negative distance, 0 ≤ distance ∧ signedRat negative distance = q ∧
    Nearest negative distance x

theorem nearestTo_toRat {x : Double} (h : x.isFinite = true) : NearestTo x.toRat x :=
  ⟨x.negative, valueAt x.magnitude, valueAt_nonneg _, (toRat_eq x).symm,
    nearest_of_rounds (valueAt_nonneg _) h (rounds_valueAt _)⟩

theorem roundsTo_natCast (n : Nat) : RoundsTo n (nearestMagnitude n 1) := by
  have hrounds := roundsTo_nearestMagnitude n Nat.one_pos
  rwa [Nat.cast_one, div_one] at hrounds

theorem signedRat_natAbs (k : ℤ) : signedRat (k < 0) k.natAbs = k := by
  rw [signedRat_natCast, Numeral.signed]
  split
  · next hneg =>
    have hneg : k < 0 := of_decide_eq_true hneg
    exact congrArg _ (by omega)
  · next hnonneg =>
    have hnonneg : ¬k < 0 := of_decide_eq_false (by simpa using hnonneg)
    exact congrArg _ (by omega)

theorem natAbs_lt_overflow (v : Int64) : (v.toInt.natAbs : ℚ) < overflow := by
  have hrange : v.toInt.natAbs ≤ 2 ^ 63 := by
    have hlow : -0x8000000000000000 ≤ v.toInt := Int64.le_toInt v
    have hhigh : v.toInt < 0x8000000000000000 := Int64.toInt_lt v
    omega
  calc (v.toInt.natAbs : ℚ)
    _ ≤ 2 ^ 63 := by exact_mod_cast hrange
    _ < 2 ^ 1023 := pow_lt_pow_right₀ one_lt_two (by norm_num)
    _ ≤ overflow := two_pow_le_overflow

/-- **An integer of 64 bits becomes the double nearest to it.** -/
theorem nearestTo_ofInt (v : Int64) : NearestTo v.toInt (ofInt v.toInt) := by
  refine ⟨_, _, Nat.cast_nonneg _, signedRat_natAbs _,
    (nearest_ofMagnitude_iff (Nat.cast_nonneg _) (roundsTo_natCast _)).2 ⟨rfl, ?_⟩⟩
  cases roundsTo_natCast v.toInt.natAbs with
  | finite hm _ =>
    rw [isFinite_iff, ofInt, magnitude_ofMagnitude (hm.trans infiniteMagnitude_lt)]
    exact hm
  | infinite _ hlarge => exact absurd (natAbs_lt_overflow v) (not_lt.2 hlarge)

/-- Up to `2 ^ 53` on both sides of zero, nothing is lost. -/
theorem toRat_ofInt {k : ℤ} (h : |k| ≤ 2 ^ 53) : (ofInt k).toRat = k := by
  have hrange : k.natAbs ≤ 2 ^ 53 := by
    rw [Int.abs_eq_natAbs] at h
    omega
  obtain ⟨m, hm, hvalue⟩ := exists_valueAt hrange
  have hrounds : RoundsTo k.natAbs m := hvalue ▸ .finite hm (rounds_valueAt m)
  have hbits := hm.trans infiniteMagnitude_lt
  rw [ofInt, (roundsTo_natCast _).unique hrounds, toRat_eq, negative_ofMagnitude hbits,
    magnitude_ofMagnitude hbits, hvalue, signedRat_natAbs]

end Double

namespace Integer

theorem exists_toInt_of_inRange {k : ℤ} (h : InRange k) : ∃ v : Int64, v.toInt = k :=
  ⟨clamp k, toInt_clamp h⟩

end Integer

namespace Scalar

open Double (NearestTo toRat)
open Integer (InRange)

section Views

variable {s : Scalar} {x : Double}

theorem isFinite_of_value (h : s.value = .double x) : x.isFinite = true := by
  obtain ⟨kind, raw⟩ := s
  cases kind with
  | double => exact Double.isFinite_of_parse? (value_double_eq_iff.1 h)
  | integer =>
    rw [value] at h
    cases hparse : Integer.parse? raw <;> simp [hparse] at h
  | _ => simp [value] at h

/-- A double is an integer if its value is one, and else it is refused with its text. -/
theorem toInteger_double_cases (h : s.value = .double x) :
    (∃ v, s.toInteger = .ok v ∧ x.toRat = v.toInt) ∨
      s.toInteger = .error s.notANumber ∧ ∀ v : Int64, x.toRat ≠ v.toInt := by
  have hfinite := isFinite_of_value h
  cases hcast : x.isInt64 with
  | false =>
    right
    refine ⟨by simp [toInteger, h, hcast], ?_⟩
    intro v hv
    rw [(Double.isInt64_iff hfinite).2 ⟨v, hv⟩] at hcast
    cases hcast
  | true =>
    left
    exact ⟨x.toInt64, by simp [toInteger, h, hcast], Double.toRat_toInt64 hfinite hcast⟩

theorem toInteger_double_iff (h : s.value = .double x) {v : Int64} :
    s.toInteger = .ok v ↔ x.toRat = v.toInt := by
  rcases toInteger_double_cases h with ⟨v', hread, hvalue⟩ | ⟨hread, hnone⟩
  · rw [hread, hvalue, Int.cast_inj, Int64.toInt_inj, Except.ok.injEq]
  · rw [hread]
    exact iff_of_false nofun (hnone v)

theorem value_of_toInteger {v : Int64} (hkind : s.kind = .integer ∨ s.kind = .double)
    (h : s.toInteger = .ok v) :
    s.kind = .integer ∧ s.value = .integer v ∨
      s.kind = .double ∧ ∃ x, s.value = .double x ∧ x.isFinite = true := by
  obtain ⟨kind, raw⟩ := s
  rcases hkind with rfl | rfl
  · rcases hparse : Integer.parse? raw with _ | k
    · simp [toInteger, value, hparse] at h
    · have hk : k = v := by simpa [toInteger, value, hparse] using h
      exact Or.inl ⟨rfl, by simp [value, hparse, hk]⟩
  · rcases hparse : Double.parse? raw with _ | x
    · simp [toInteger, value, hparse] at h
    · exact Or.inr ⟨rfl, x, by simp [value, hparse], Double.isFinite_of_parse? hparse⟩

end Views

/-- **The integer view of a double is exact, and the two numeric views agree.**  A double scalar
    has the integer `k` exactly if the value of its double is `k` and `k` has 64 bits; any other
    is not a number, under its tag and with its text.  And where an integer or a double has an
    integer, it also has a double, which is the nearest one to that integer; it is equal to it in
    a double, and in an integer of up to `2 ^ 53` on either side of zero. -/
theorem numeric_views_agree :
    (∀ raw x, value ⟨.double, raw⟩ = .double x →
      (∀ k : ℤ, (∃ v : Int64, v.toInt = k ∧ toInteger ⟨.double, raw⟩ = .ok v) ↔
        x.toRat = k ∧ InRange k) ∧
      ((∀ k : ℤ, x.toRat = k → ¬InRange k) →
        toInteger ⟨.double, raw⟩ = .error (.notANumber "double" raw))) ∧
    (∀ (s : Scalar) (v : Int64), s.kind = .integer ∨ s.kind = .double → s.toInteger = .ok v →
      ∃ x, s.toDouble = .ok x ∧ NearestTo v.toInt x ∧
        (s.kind = .double ∨ |v.toInt| ≤ 2 ^ 53 → x.toRat = v.toInt)) := by
  refine ⟨?integer, ?agree⟩
  case integer =>
    intro raw x hx
    constructor
    · intro k
      constructor
      · rintro ⟨v, rfl, hv⟩
        exact ⟨(toInteger_double_iff hx).1 hv, Integer.inRange_toInt v⟩
      · rintro ⟨hk, hrange⟩
        obtain ⟨v, rfl⟩ := Integer.exists_toInt_of_inRange hrange
        exact ⟨v, rfl, (toInteger_double_iff hx).2 hk⟩
    · intro hnone
      rcases toInteger_double_cases hx with ⟨v, -, hv⟩ | ⟨hread, -⟩
      · exact absurd (Integer.inRange_toInt v) (hnone _ hv)
      · exact hread
  case agree =>
    intro s v hkind hv
    rcases value_of_toInteger hkind hv with ⟨hinteger, hvalue⟩ | ⟨-, x, hvalue, hfinite⟩
    · refine ⟨Double.ofInt v.toInt, by rw [toDouble, hvalue], Double.nearestTo_ofInt v, ?_⟩
      rintro (hdouble | hsmall)
      · rw [hinteger] at hdouble
        cases hdouble
      · exact Double.toRat_ofInt hsmall
    · have hexact := (toInteger_double_iff hvalue).1 hv
      refine ⟨x, by rw [toDouble, hvalue], ?_, fun _ => hexact⟩
      rw [← hexact]
      exact Double.nearestTo_toRat hfinite

/-- The least integer of 64 bits is a double and the negative zero is zero; `2 ^ 63` and one half
    are refused; and half-way after `2 ^ 53` an integer becomes the even double below. -/
theorem numeric_views_agree_ends :
    (∃ v : Int64, v.toInt = -2 ^ 63 ∧ toInteger ⟨.double, "-9223372036854775808"⟩ = .ok v) ∧
    (∃ x, toDouble ⟨.double, "-0.0"⟩ = .ok x ∧ x.toRat = 0) ∧
    toInteger ⟨.double, "9223372036854775808"⟩ =
      .error (.notANumber "double" "9223372036854775808") ∧
    toInteger ⟨.double, " 0.5"⟩ = .error (.notANumber "double" " 0.5") ∧
    toDouble ⟨.integer, "9007199254740993"⟩ = .ok ⟨0x4340000000000000⟩ ∧
    NearestTo 9007199254740993 ⟨0x4340000000000000⟩ := by
  obtain ⟨hdouble, hagree⟩ := numeric_views_agree
  -- of each text, the double that is its value, and what that one is worth
  have hleast : value ⟨.double, "-9223372036854775808"⟩ = .double ⟨0xC3E0000000000000⟩ := by
    decide +kernel
  have hbeyond : value ⟨.double, "9223372036854775808"⟩ = .double ⟨0x43E0000000000000⟩ := by
    decide +kernel
  have hhalf : value ⟨.double, " 0.5"⟩ = .double ⟨0x3FE0000000000000⟩ := by
    decide +kernel
  have hbeyondValue : toRat ⟨0x43E0000000000000⟩ = ((2 ^ 63 : ℤ) : ℚ) := by
    rw [Int.cast_pow]
    exact Double.toRat_int64Bound
  have hleastValue : toRat ⟨0xC3E0000000000000⟩ = ((-2 ^ 63 : ℤ) : ℚ) := by
    rw [Int.cast_neg, ← hbeyondValue]
    exact Double.toRat_neg Double.int64Bound
  have hhalfValue : toRat ⟨0x3FE0000000000000⟩ = 1 / 2 := by
    have hsign : Double.negative ⟨0x3FE0000000000000⟩ = false := by decide
    have hsignificand : Double.significand ⟨0x3FE0000000000000⟩ = 2 ^ 52 := by decide
    have hexponent : Double.exponent ⟨0x3FE0000000000000⟩ = -53 := by decide
    rw [toRat, hsign, hsignificand, hexponent, Double.signedRat]
    norm_num
  refine ⟨?_, ?_, ?_, ?_, ?_⟩
  · exact ((hdouble _ _ hleast).1 _).2 ⟨hleastValue, by constructor <;> decide⟩
  · obtain ⟨x, hx, -, hexact⟩ := hagree ⟨.double, "-0.0"⟩ 0 (Or.inr rfl) (by decide +kernel)
    exact ⟨x, hx, hexact (Or.inl rfl)⟩
  · refine (hdouble _ _ hbeyond).2 ?_
    rintro k hk ⟨-, hhigh⟩
    rw [hbeyondValue, Int.cast_inj] at hk
    omega
  · refine (hdouble _ _ hhalf).2 ?_
    intro k hk
    have htwice : ((2 * k : ℤ) : ℚ) = (1 : ℤ) := by
      rw [Int.cast_mul, ← hk, hhalfValue]
      norm_num
    have htwice := Int.cast_injective htwice
    omega
  · obtain ⟨x, hx, hnearest, -⟩ :=
      hagree ⟨.integer, "9007199254740993"⟩ 9007199254740993 (Or.inl rfl) (by decide +kernel)
    have hread : toDouble ⟨.integer, "9007199254740993"⟩ = .ok ⟨0x4340000000000000⟩ := by
      decide +kernel
    cases hx.symm.trans hread
    exact ⟨hread, hnearest⟩

end Scalar

end XmlRpc
