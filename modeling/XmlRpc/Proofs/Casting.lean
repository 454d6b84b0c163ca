/-
  XmlRpc/Proofs/Casting.lean
  ==========================
  **Doubles compared, subtracted, cut at the point, and cast, in terms of their values.**

  The place of a double in the order of the doubles and its value grow together (`valueAtRank`),
  so comparing bits is comparing values.  Every finite double is a whole number of least units,
  and nothing but zero is rounded to zero on that grid; a difference is therefore zero exactly if
  the two values are equal, although other differences are rounded (`sub_equals_zero_iff`).
  Clearing the bits below one leaves the whole part (`valueAt_truncMagnitude`).

  Together the guard of the cast lets through the integers of 64 bits and nothing else
  (`isInt64_iff`), and on those the cast keeps the value (`toRat_toInt64`): `2 ^ 63` is the first
  double that it would have to move into the range.
-/
import XmlRpc.Scalar
import XmlRpc.Proofs.NearestDouble
import XmlRpc.Proofs.QuotientRounding
import XmlRpc.Proofs.IntegerScalars

namespace XmlRpc

namespace Integer

theorem toInt_clamp {k : ℤ} (h : InRange k) : (clamp k).toInt = k := by
  obtain ⟨hlow, hhigh⟩ := h
  rw [clamp, if_neg (by omega), if_neg (by omega)]
  exact Int64.toInt_ofInt_of_le (by simpa using hlow) (by simp; omega)

end Integer

namespace Double

/-! ### Signs -/

theorem signedRat_natCast (negative : Bool) (n : Nat) :
    signedRat negative n = (Numeral.signed negative n : ℤ) := by
  cases negative with
  | false => exact (Int.cast_natCast n).symm
  | true =>
    rw [Numeral.signed, if_pos rfl, Int.cast_neg, Int.cast_natCast]
    rfl

theorem abs_signedRat (negative : Bool) (q : ℚ) : |signedRat negative q| = |q| := by
  cases negative with
  | false => rfl
  | true => exact abs_neg q

theorem significand_mul_eq_div (x : Double) :
    (x.significand * 2 ^ x.exponent : ℚ) =
      (x.significand * Nat.pow 2 x.exponent.toNat : Nat) /
        (Nat.pow 2 (-x.exponent).toNat : Nat) := by
  have hquotient := scaled_quotient x.significand 1 two_pos (-x.exponent)
  rw [neg_neg, Nat.one_mul, Nat.cast_one, div_one, zpow_neg, div_inv_eq_mul,
    Nat.cast_ofNat] at hquotient
  exact hquotient.symm

/-! ### Comparison -/

theorem magnitude_lt (x : Double) : x.magnitude < signBit :=
  Nat.mod_lt _ (by decide)

/-- The number at a place in the order of the doubles. -/
def valueAtRank (k : ℤ) : ℚ :=
  valueAt k.toNat - valueAt (-k).toNat

theorem valueAtRank_strictMono : StrictMono valueAtRank := by
  intro k l h
  have hup : valueAt k.toNat ≤ valueAt l.toNat :=
    valueAt_strictMono.monotone (by omega)
  have hdown : valueAt (-l).toNat ≤ valueAt (-k).toNat :=
    valueAt_strictMono.monotone (by omega)
  rcases Int.lt_or_le 0 l with hpos | hneg
  · have hup : valueAt k.toNat < valueAt l.toNat := valueAt_strictMono (by omega)
    rw [valueAtRank, valueAtRank]
    linarith
  · have hdown : valueAt (-l).toNat < valueAt (-k).toNat := valueAt_strictMono (by omega)
    rw [valueAtRank, valueAtRank]
    linarith

theorem toRat_eq_valueAtRank (x : Double) : x.toRat = valueAtRank x.rank := by
  rw [toRat_eq, valueAtRank, rank, Numeral.signed, signedRat]
  split <;> simp [valueAt_zero]

section Comparison

variable {x y : Double}

theorem isNaN_eq_false (h : x.isFinite = true) : x.isNaN = false :=
  decide_eq_false (not_lt.2 (isFinite_iff.1 h).le)

theorem atMost_iff (hx : x.isFinite = true) (hy : y.isFinite = true) :
    x.atMost y = true ↔ x.toRat ≤ y.toRat := by
  rw [toRat_eq_valueAtRank, toRat_eq_valueAtRank, valueAtRank_strictMono.le_iff_le]
  simp [atMost, isNaN_eq_false hx, isNaN_eq_false hy]

theorem below_iff (hx : x.isFinite = true) (hy : y.isFinite = true) :
    x.below y = true ↔ x.toRat < y.toRat := by
  rw [toRat_eq_valueAtRank, toRat_eq_valueAtRank, valueAtRank_strictMono.lt_iff_lt]
  simp [below, isNaN_eq_false hx, isNaN_eq_false hy]

end Comparison

/-! ### Differences -/

theorem magnitude_neg (x : Double) : x.neg.magnitude = x.magnitude :=
  magnitude_ofMagnitude x.magnitude_lt

theorem toRat_neg (x : Double) : x.neg.toRat = -x.toRat := by
  rw [toRat_eq, toRat_eq, magnitude_neg, neg, negative_ofMagnitude x.magnitude_lt, signedRat,
    signedRat]
  cases x.negative <;> simp

theorem toRat_eq_units (x : Double) : x.toRat = x.units * 2 ^ leastExponent := by
  have hleast : leastExponent ≤ x.exponent := by
    rw [exponent, leastExponent, hiddenBit]
    split <;> omega
  have hexponent : x.exponent = leastExponent + (x.exponent - leastExponent).toNat := by omega
  have hdistance : (x.significand * 2 ^ x.exponent : ℚ) =
      ((x.significand * Nat.pow 2 (x.exponent - leastExponent).toNat : Nat) : ℚ) *
        2 ^ leastExponent := by
    conv_lhs => rw [hexponent]
    rw [zpow_add₀ two_ne_zero, zpow_natCast, Nat.pow_eq]
    push_cast
    ring
  rw [toRat, hdistance, units, ← signedRat_natCast, signedRat, signedRat]
  split
  · exact (neg_mul _ _).symm
  · rfl

theorem pow_two_pos (k : Nat) : 0 < Nat.pow 2 k :=
  Nat.two_pow_pos k

/-- Nothing but zero is rounded to zero on the grid of the least double. -/
theorem nearestMagnitude_units_eq_zero {n : Nat}
    (h : nearestMagnitude n (Nat.pow 2 (-leastExponent).toNat) = 0) : n = 0 := by
  have hunit : (0 : ℚ) < 2 ^ leastExponent := by positivity
  have hgrid : (n : ℚ) / (Nat.pow 2 (-leastExponent).toNat : Nat) = n * 2 ^ leastExponent := by
    obtain ⟨e, he⟩ : ∃ e, e = (-leastExponent).toNat := ⟨_, rfl⟩
    have hleast : leastExponent = -(e : ℤ) := by rw [he]; rfl
    rw [← he, hleast, zpow_neg, zpow_natCast, div_eq_mul_inv, Nat.pow_eq, Nat.cast_pow,
      Nat.cast_ofNat]
  have hfirst : valueAt 1 = 2 ^ leastExponent := by
    rw [valueAt, unitsAt, if_pos (by decide), Nat.cast_one, one_mul]
  have hrounds : RoundsTo (n * 2 ^ leastExponent) 0 := by
    rw [← h, ← hgrid]
    exact roundsTo_nearestMagnitude n (pow_two_pos _)
  cases hrounds with
  | finite _ hrounds =>
    have hhalf : (n : ℚ) * 2 ^ leastExponent ≤ 1 / 2 * 2 ^ leastExponent := by
      calc (n : ℚ) * 2 ^ leastExponent
        _ ≤ midpoint 0 := hrounds.above
        _ = 1 / 2 * 2 ^ leastExponent := by
          rw [midpoint, valueAt_zero, zero_add, hfirst, div_mul_eq_mul_div, one_mul]
    have hsmall : (n : ℚ) < 1 := (le_of_mul_le_mul_right hhalf hunit).trans_lt (by norm_num)
    exact Nat.lt_one_iff.1 (by exact_mod_cast hsmall)
  | infinite hm => exact absurd hm infiniteMagnitude_pos.ne

/-- Both zeros equal zero, and nothing else does. -/
theorem equals_zero_iff {x : Double} : x.equals zero = true ↔ x.magnitude = 0 := by
  have hzero : zero.rank = 0 := by decide
  have hnumber : zero.isNaN = false := by decide
  have hrank : x.rank = 0 ↔ x.magnitude = 0 := by
    rw [rank, Numeral.signed]
    split <;> omega
  rw [equals, hzero, hnumber, Bool.not_false, Bool.and_true, Bool.and_eq_true, beq_iff_eq, hrank,
    Bool.not_eq_true', and_iff_right_iff_imp]
  intro hx
  rw [isNaN, hx]
  decide

theorem nearestMagnitude_lt (n : Nat) {d : Nat} (hd : 0 < d) : nearestMagnitude n d < signBit := by
  cases roundsTo_nearestMagnitude n hd with
  | finite hm => exact hm.trans infiniteMagnitude_lt
  | infinite hm => exact hm ▸ infiniteMagnitude_lt

/-- **A difference of finite doubles is zero only if they are the same number.** -/
theorem sub_equals_zero_iff {x y : Double} (hx : x.isFinite = true) (hy : y.isFinite = true) :
    (x.sub y).equals zero = true ↔ x.toRat = y.toRat := by
  have hunit : (0 : ℚ) < 2 ^ leastExponent := by positivity
  have hfinite : x.sub y = finiteSub x y := by
    simp only [sub, isNaN_eq_false hx, isNaN_eq_false hy, hx, hy, Bool.or_self, if_true,
      Bool.false_eq_true, if_false]
  rw [hfinite, equals_zero_iff, finiteSub,
    magnitude_ofMagnitude (nearestMagnitude_lt _ (pow_two_pos _)), toRat_eq_units, toRat_eq_units,
    mul_left_inj' hunit.ne', Int.cast_inj]
  constructor
  · intro h
    have := nearestMagnitude_units_eq_zero h
    omega
  · intro h
    rw [h, Int.sub_self]
    rfl

/-! ### Cutting at the point -/

theorem valueAt_exponent_one : valueAt (1023 * hiddenBit) = 1 := by
  have hgrid : 1023 * hiddenBit = 1022 * hiddenBit + hiddenBit := by ring
  rw [hgrid, valueAt_grid (Or.inr le_rfl) (by omega)]
  norm_num [hiddenBit, leastExponent]

/-- The bits below `2 ^ s` are those of the significand, and clearing them leaves a number of the
    same exponent. -/
theorem sub_mod_grid {k u s : Nat} (hlow : hiddenBit ≤ u) (hs : s ≤ 52) :
    k * hiddenBit + u - (k * hiddenBit + u) % 2 ^ s = k * hiddenBit + u / 2 ^ s * 2 ^ s ∧
      hiddenBit ≤ u / 2 ^ s * 2 ^ s := by
  obtain ⟨c, hc⟩ : ∃ c, hiddenBit = c * 2 ^ s := by
    refine ⟨2 ^ (52 - s), ?_⟩
    rw [← pow_add, Nat.sub_add_cancel hs]
    rfl
  constructor
  · have hmod : (k * hiddenBit + u) % 2 ^ s = u % 2 ^ s := by
      rw [hc, ← Nat.mul_assoc, Nat.mul_comm _ (2 ^ s), Nat.mul_add_mod]
    rw [hmod, Nat.div_mul_self_eq_mod_sub_self, Nat.add_sub_assoc (Nat.mod_le _ _)]
  · rw [hc] at hlow ⊢
    exact Nat.mul_le_mul_right _ ((Nat.le_div_iff_mul_le (Nat.two_pow_pos s)).2 hlow)

/-- Where the unit is `2 ^ (-s)`, the bits below `2 ^ s` stand for the fraction. -/
theorem valueAt_sub_mod {k u s : Nat} (hlow : hiddenBit ≤ u) (hhigh : u ≤ 2 * hiddenBit)
    (hs : s ≤ 52) (hexponent : (k : ℤ) + leastExponent = -(s : ℤ)) :
    valueAt (k * hiddenBit + u - (k * hiddenBit + u) % 2 ^ s) =
      ⌊valueAt (k * hiddenBit + u)⌋₊ := by
  obtain ⟨hcut, hcutLow⟩ := sub_mod_grid (k := k) hlow hs
  have hcutHigh : u / 2 ^ s * 2 ^ s ≤ 2 * hiddenBit := (Nat.div_mul_le_self _ _).trans hhigh
  have hunit : (2 : ℚ) ^ ((k : ℤ) + leastExponent) = 1 / (2 ^ s : Nat) := by
    rw [hexponent, zpow_neg, zpow_natCast, one_div, Nat.cast_pow, Nat.cast_ofNat]
  have hpos : ((2 ^ s : Nat) : ℚ) ≠ 0 := Nat.cast_ne_zero.2 (Nat.two_pow_pos s).ne'
  have hwhole : ⌊valueAt (k * hiddenBit + u)⌋₊ = u / 2 ^ s := by
    rw [valueAt_grid (Or.inr hlow) hhigh, hunit, mul_one_div, Nat.floor_div_eq_div]
  rw [hwhole, hcut, valueAt_grid (Or.inr hcutLow) hcutHigh, hunit, mul_one_div, Nat.cast_mul,
    mul_div_cancel_right₀ _ hpos]

/-- **Clearing the bits below one leaves the whole part.** -/
theorem valueAt_truncMagnitude (m : Nat) : valueAt (truncMagnitude m) = ⌊valueAt m⌋₊ := by
  rw [truncMagnitude]
  split
  · next hbelow =>
    have hless : m < 1023 * hiddenBit := (Nat.div_lt_iff_lt_mul (by decide)).1 hbelow
    have hfloor : ⌊valueAt m⌋₊ = 0 :=
      Nat.floor_eq_zero.2 (valueAt_exponent_one ▸ valueAt_strictMono hless)
    rw [hfloor, valueAt_zero, Nat.cast_zero]
  · next habove =>
    obtain ⟨k, hk⟩ : ∃ k, m / hiddenBit = k + 1 := ⟨m / hiddenBit - 1, by omega⟩
    obtain ⟨u, rfl⟩ : ∃ u, m = k * hiddenBit + u :=
      ⟨m - k * hiddenBit, by rw [hiddenBit] at *; omega⟩
    have hlow : hiddenBit ≤ u := by rw [hiddenBit] at *; omega
    have hhigh : u ≤ 2 * hiddenBit := by rw [hiddenBit] at *; omega
    rw [hk] at habove ⊢
    split
    · next hpoint =>
      refine valueAt_sub_mod hlow hhigh (by omega) ?_
      rw [leastExponent]
      omega
    · next hwhole =>
      -- the unit is a whole number, and so is the double
      obtain ⟨j, hexponent⟩ : ∃ j : Nat, (k : ℤ) + leastExponent = j := by
        refine ⟨k - 1074, ?_⟩
        rw [leastExponent]
        omega
      have hnat : valueAt (k * hiddenBit + u) = ((u * 2 ^ j : Nat) : ℚ) := by
        rw [valueAt_grid (Or.inr hlow) hhigh, hexponent, zpow_natCast]
        push_cast
        rfl
      rw [hnat, Nat.floor_natCast]

theorem truncMagnitude_le (m : Nat) : truncMagnitude m ≤ m := by
  rw [truncMagnitude]
  split
  · exact Nat.zero_le _
  · split
    · exact Nat.sub_le _ _
    · exact le_rfl

theorem magnitude_trunc (x : Double) : x.trunc.magnitude = truncMagnitude x.magnitude :=
  magnitude_ofMagnitude ((truncMagnitude_le _).trans_lt x.magnitude_lt)

theorem isFinite_trunc {x : Double} (h : x.isFinite = true) : x.trunc.isFinite = true := by
  rw [isFinite_iff] at h ⊢
  rw [magnitude_trunc]
  exact (truncMagnitude_le _).trans_lt h

theorem toRat_trunc (x : Double) : x.trunc.toRat = signedRat x.negative ⌊valueAt x.magnitude⌋₊ := by
  rw [toRat_eq, magnitude_trunc, valueAt_truncMagnitude, trunc,
    negative_ofMagnitude ((truncMagnitude_le _).trans_lt x.magnitude_lt)]

/-- **A double has no fraction exactly if it is its own whole part.** -/
theorem fract_equals_zero_iff {x : Double} (h : x.isFinite = true) :
    x.fract.equals zero = true ↔ x.toRat = signedRat x.negative ⌊valueAt x.magnitude⌋₊ := by
  rw [fract, sub_equals_zero_iff h (isFinite_trunc h), toRat_trunc]

/-! ### Casting -/

/-- The integer that is left of a double without its fraction. -/
theorem whole_eq (x : Double) :
    x.significand * Nat.pow 2 x.exponent.toNat / Nat.pow 2 (-x.exponent).toNat =
      ⌊valueAt x.magnitude⌋₊ := by
  rw [← significand_mul, significand_mul_eq_div, Nat.floor_div_eq_div]

theorem toRat_int64Bound : int64Bound.toRat = 2 ^ 63 := by
  have hsign : int64Bound.negative = false := by decide
  have hsignificand : int64Bound.significand = 2 ^ 52 := by decide
  have hexponent : int64Bound.exponent = 11 := by decide
  rw [toRat, hsign, hsignificand, hexponent, signedRat]
  norm_num

/-- What the guard of the cast looks at, in terms of values. -/
theorem isInt64_iff_between {x : Double} (hfinite : x.isFinite = true) :
    x.isInt64 = true ↔ x.toRat = signedRat x.negative ⌊valueAt x.magnitude⌋₊ ∧
      -2 ^ 63 ≤ x.toRat ∧ x.toRat < 2 ^ 63 := by
  have hbound : int64Bound.isFinite = true := by decide
  have hlower : int64Bound.neg.isFinite = true := by decide
  rw [isInt64, Bool.and_eq_true, Bool.and_eq_true, fract_equals_zero_iff hfinite,
    atMost_iff hlower hfinite, below_iff hfinite hbound, toRat_neg, toRat_int64Bound, and_assoc]

/-- **A cast that is let through cuts nothing off and is not moved to an end of the range.** -/
theorem toRat_toInt64 {x : Double} (hfinite : x.isFinite = true) (h : x.isInt64 = true) :
    x.toRat = x.toInt64.toInt := by
  obtain ⟨hwhole, hlow, hhigh⟩ := (isInt64_iff_between hfinite).1 h
  rw [signedRat_natCast] at hwhole
  rw [hwhole] at hlow hhigh
  have hrange : Integer.InRange (Numeral.signed x.negative ⌊valueAt x.magnitude⌋₊) := by
    refine ⟨by exact_mod_cast hlow, Int.le_sub_one_of_lt ?_⟩
    exact_mod_cast hhigh
  rw [toInt64, isNaN_eq_false hfinite, if_neg Bool.false_ne_true, whole_eq,
    Integer.toInt_clamp hrange]
  exact hwhole

/-- **A cast is let through exactly if the value of the double is an integer of 64 bits.** -/
theorem isInt64_iff {x : Double} (hfinite : x.isFinite = true) :
    x.isInt64 = true ↔ ∃ v : Int64, x.toRat = v.toInt := by
  constructor
  · exact fun h => ⟨_, toRat_toInt64 hfinite h⟩
  · rintro ⟨v, hv⟩
    have hdistance : valueAt x.magnitude = v.toInt.natAbs := by
      rw [Nat.cast_natAbs, Int.cast_abs, ← hv, toRat_eq, abs_signedRat,
        abs_of_nonneg (valueAt_nonneg _)]
    have hwhole : x.toRat = signedRat x.negative ⌊valueAt x.magnitude⌋₊ := by
      rw [hdistance, Nat.floor_natCast, ← hdistance, toRat_eq]
    obtain ⟨hlow, hhigh⟩ := Integer.inRange_toInt v
    have hhigh := Int.lt_of_le_sub_one hhigh
    refine (isInt64_iff_between hfinite).2 ⟨hwhole, ?_, ?_⟩
    · rw [hv]
      exact_mod_cast hlow
    · rw [hv]
      exact_mod_cast hhigh

end Double

end XmlRpc
