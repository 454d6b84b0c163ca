/-
  XmlRpc/Proofs/NearestDouble.lean
  ================================
  **A number is rounded to the finite double nearest to it.**

  `Nearest` says what rounding is for, without midpoints and magnitudes: no finite double is
  nearer to the number, a double that is as near gives way to one with an even significand,
  and the sign of the number is kept, at zero too.  Numbers from half-way between the last
  finite double and `2 ^ 1024` on have no nearest double.

  This is the same as lying between the midpoints around the double (`nearest_iff`).  In one
  direction only the two neighbours of the double are looked at; in the other, doubles of
  the other sign are all farther away than zero is.
-/
import XmlRpc.Proofs.Rounding

namespace XmlRpc.Double

/-! ### Bits -/

section Bits

variable {negative : Bool} {m : Nat}

theorem toNat_ofMagnitude (hm : m < signBit) :
    (ofMagnitude negative m).bits.toNat = if negative then signBit + m else m := by
  rw [ofMagnitude, UInt64.toNat_ofNat']
  refine Nat.mod_eq_of_lt ?_
  rw [signBit] at *
  split <;> omega

theorem magnitude_ofMagnitude (hm : m < signBit) : (ofMagnitude negative m).magnitude = m := by
  rw [magnitude, toNat_ofMagnitude hm]
  split
  · rw [Nat.add_mod_left, Nat.mod_eq_of_lt hm]
  · exact Nat.mod_eq_of_lt hm

theorem negative_ofMagnitude (hm : m < signBit) : (ofMagnitude negative m).negative = negative := by
  rw [Double.negative, toNat_ofMagnitude hm]
  cases negative with
  | true => simp
  | false => simpa using hm

/-- A double is its sign and its magnitude. -/
theorem ofMagnitude_magnitude (x : Double) : ofMagnitude x.negative x.magnitude = x := by
  have hless : x.magnitude < signBit := Nat.mod_lt _ (by decide)
  have hbits : (ofMagnitude x.negative x.magnitude).bits = x.bits := by
    rw [← UInt64.toNat_inj, toNat_ofMagnitude hless, Double.negative, magnitude, signBit]
    have hwidth := x.bits.toNat_lt
    simp only [decide_eq_true_eq]
    split <;> omega
  cases x
  exact congrArg Double.mk hbits

theorem infiniteMagnitude_lt : infiniteMagnitude < signBit := by
  norm_num [infiniteMagnitude, signBit, hiddenBit]

theorem isFinite_iff {x : Double} : x.isFinite = true ↔ x.magnitude < infiniteMagnitude :=
  decide_eq_true_iff

end Bits

/-! ### The value of a double -/

/-- The number, negated if the flag is set. -/
def signedRat (negative : Bool) (q : ℚ) : ℚ :=
  if negative then -q else q

/-- The exact value of a finite double. -/
def toRat (x : Double) : ℚ :=
  signedRat x.negative (x.significand * 2 ^ x.exponent)

theorem significand_mul (x : Double) :
    (x.significand * 2 ^ x.exponent : ℚ) = valueAt x.magnitude := by
  rw [significand, exponent, valueAt, unitsAt]
  split
  · rfl
  · next hnormal =>
    have hexponent : ((x.magnitude / hiddenBit : Nat) : ℤ) - 1075 =
        ((x.magnitude / hiddenBit - 1 : Nat) : ℤ) + leastExponent := by
      rw [hiddenBit, leastExponent] at *
      omega
    rw [hexponent, zpow_add₀ two_ne_zero, zpow_natCast, ← mul_assoc]
    push_cast
    rfl

theorem signedRat_injective {negative : Bool} : Function.Injective (signedRat negative) := by
  cases negative
  · exact Function.injective_id
  · exact neg_injective

theorem toRat_eq (x : Double) : x.toRat = signedRat x.negative (valueAt x.magnitude) := by
  rw [toRat, significand_mul]

theorem significand_mod_two (x : Double) : x.significand % 2 = x.magnitude % 2 := by
  rw [significand, hiddenBit]
  split <;> omega

/-- The finite double nearest to a number that is given by its sign and its distance from zero. -/
structure Nearest (negative : Bool) (q : ℚ) (x : Double) : Prop where
  finite : x.isFinite = true
  sign : x.negative = negative
  inRange : q < overflow
  closest : ∀ y : Double, y.isFinite = true →
    |signedRat negative q - x.toRat| ≤ |signedRat negative q - y.toRat|
  even : ∀ y : Double, y.isFinite = true → y.toRat ≠ x.toRat →
    |signedRat negative q - y.toRat| = |signedRat negative q - x.toRat| → x.significand % 2 = 0

/-! ### Distances -/

section Distance

variable {a b q : ℚ}

theorem dist_le_iff_lower (h : a < b) : |q - a| ≤ |q - b| ↔ q ≤ (a + b) / 2 := by
  constructor
  · intro hle
    rcases abs_cases (q - a) with ha | ha <;> rcases abs_cases (q - b) with hb | hb <;> linarith
  · intro hle
    rcases abs_cases (q - a) with ha | ha <;> rcases abs_cases (q - b) with hb | hb <;> linarith

theorem dist_le_iff_upper (h : a < b) : |q - b| ≤ |q - a| ↔ (a + b) / 2 ≤ q := by
  constructor
  · intro hle
    rcases abs_cases (q - a) with ha | ha <;> rcases abs_cases (q - b) with hb | hb <;> linarith
  · intro hle
    rcases abs_cases (q - a) with ha | ha <;> rcases abs_cases (q - b) with hb | hb <;> linarith

theorem dist_lt_iff_lower (h : a < b) : |q - a| < |q - b| ↔ q < (a + b) / 2 := by
  rw [← not_le, dist_le_iff_upper h, not_le]

theorem dist_lt_iff_upper (h : a < b) : |q - b| < |q - a| ↔ (a + b) / 2 < q := by
  rw [← not_le, dist_le_iff_lower h, not_le]

theorem dist_signed (negative : Bool) (a b : ℚ) :
    |signedRat negative a - signedRat negative b| = |a - b| := by
  cases negative with
  | false => rfl
  | true =>
    change |-a - -b| = |a - b|
    rw [neg_sub_neg, abs_sub_comm]

/-- Two numbers of unlike signs are as far apart as their distances from zero together. -/
theorem dist_unlike {negative negative' : Bool} (h : negative' ≠ negative) (ha : 0 ≤ a)
    (hb : 0 ≤ b) : |signedRat negative a - signedRat negative' b| = a + b := by
  cases negative <;> cases negative'
  · exact absurd rfl h
  · change |a - -b| = a + b
    rw [sub_neg_eq_add, abs_of_nonneg (add_nonneg ha hb)]
  · change |-a - b| = a + b
    rw [← neg_add', abs_neg, abs_of_nonneg (add_nonneg ha hb)]
  · exact absurd rfl h

end Distance

theorem valueAt_nonneg (m : Nat) : 0 ≤ valueAt m := by
  rw [← valueAt_zero]
  exact valueAt_strictMono.monotone m.zero_le

section Rounds

variable {q : ℚ} {m m' : Nat}

/-- Above a double, the midpoint to any other is not below the midpoint to the next. -/
theorem midpoint_le (h : m < m') : midpoint m ≤ (valueAt m + valueAt m') / 2 := by
  have hnext : valueAt (m + 1) ≤ valueAt m' := valueAt_strictMono.monotone h
  rw [midpoint]
  linarith

theorem le_midpoint {l : Nat} (h : m' ≤ l) : (valueAt m' + valueAt (l + 1)) / 2 ≤ midpoint l := by
  have hprevious : valueAt m' ≤ valueAt l := valueAt_strictMono.monotone h
  rw [midpoint]
  linarith

theorem Rounds.closest (h : Rounds q m) (m' : Nat) : |q - valueAt m| ≤ |q - valueAt m'| := by
  rcases lt_trichotomy m m' with hlt | rfl | hgt
  · exact (dist_le_iff_lower (valueAt_strictMono hlt)).2 (h.above.trans (midpoint_le hlt))
  · exact le_rfl
  · obtain ⟨l, rfl⟩ : ∃ l, m = l + 1 := ⟨m - 1, by omega⟩
    exact (dist_le_iff_upper (valueAt_strictMono hgt)).2
      ((le_midpoint (Nat.le_of_lt_succ hgt)).trans (h.below l rfl))

/-- Only an even magnitude shares its place with another. -/
theorem Rounds.closer_of_odd (h : Rounds q m) (hodd : m % 2 = 1) (hne : m' ≠ m) :
    |q - valueAt m| < |q - valueAt m'| := by
  rcases lt_or_gt_of_ne hne with hlt | hgt
  · obtain ⟨l, rfl⟩ : ∃ l, m = l + 1 := ⟨m - 1, by omega⟩
    exact (dist_lt_iff_upper (valueAt_strictMono hlt)).2
      ((le_midpoint (Nat.le_of_lt_succ hlt)).trans_lt (h.below_of_odd l rfl hodd))
  · exact (dist_lt_iff_lower (valueAt_strictMono hgt)).2
      ((h.above_of_odd hodd).trans_le (midpoint_le hgt))

end Rounds

/-! ### The nearest double lies between its midpoints -/

section Nearest

variable {negative : Bool} {q : ℚ} {x : Double}

theorem Nearest.dist_le (h : Nearest negative q x) {m : Nat} (hm : m < infiniteMagnitude) :
    |q - valueAt x.magnitude| ≤ |q - valueAt m| := by
  have hbits := hm.trans infiniteMagnitude_lt
  have hclosest := h.closest (ofMagnitude negative m)
    (isFinite_iff.2 (by rwa [magnitude_ofMagnitude hbits]))
  rw [toRat_eq, toRat_eq, negative_ofMagnitude hbits, magnitude_ofMagnitude hbits, h.sign,
    dist_signed, dist_signed] at hclosest
  exact hclosest

/-- Only a double with an even significand is nearest along with another. -/
theorem Nearest.dist_lt_of_odd (h : Nearest negative q x) (hodd : x.magnitude % 2 = 1) {m : Nat}
    (hm : m < infiniteMagnitude) (hne : m ≠ x.magnitude) :
    |q - valueAt x.magnitude| < |q - valueAt m| := by
  refine (h.dist_le hm).lt_of_ne ?_
  intro heq
  have hbits := hm.trans infiniteMagnitude_lt
  obtain ⟨y, hy⟩ : ∃ y, y = ofMagnitude negative m := ⟨_, rfl⟩
  have hmagnitude : y.magnitude = m := by rw [hy, magnitude_ofMagnitude hbits]
  have hvalue : y.toRat = signedRat negative (valueAt m) := by
    rw [toRat_eq, hmagnitude, hy, negative_ofMagnitude hbits]
  have hother : y.toRat ≠ x.toRat := by
    rw [hvalue, toRat_eq, h.sign]
    exact signedRat_injective.ne (valueAt_strictMono.injective.ne hne)
  have heven : x.significand % 2 = 0 := by
    refine h.even y (isFinite_iff.2 (by rwa [hmagnitude])) hother ?_
    rw [hvalue, toRat_eq, h.sign, dist_signed, dist_signed, heq]
  rw [significand_mod_two] at heven
  omega

theorem Nearest.rounds (h : Nearest negative q x) : Rounds q x.magnitude := by
  have hfinite : x.magnitude < infiniteMagnitude := isFinite_iff.1 h.finite
  have hless : ∀ m, valueAt m < valueAt (m + 1) := fun m => valueAt_strictMono (Nat.lt_add_one m)
  -- Above the last finite double there is none to compare with, and the range decides.
  have hnext : x.magnitude + 1 < infiniteMagnitude ∨ q < midpoint x.magnitude := by
    rw [infiniteMagnitude_eq] at hfinite ⊢
    rcases (Nat.le_of_lt_succ hfinite).lt_or_eq with hinner | hlast
    · exact Or.inl (Nat.succ_lt_succ hinner)
    · rw [hlast, midpoint_lastFinite]
      exact Or.inr h.inRange
  constructor
  case above =>
    rcases hnext with hinner | hlast
    · exact (dist_le_iff_lower (hless _)).1 (h.dist_le hinner)
    · exact hlast.le
  case above_of_odd =>
    intro hodd
    rcases hnext with hinner | hlast
    · exact (dist_lt_iff_lower (hless _)).1 (h.dist_lt_of_odd hodd hinner (Nat.succ_ne_self _))
    · exact hlast
  case below =>
    intro l hl
    have hinner : l < infiniteMagnitude := by omega
    have hcompare := h.dist_le hinner
    rw [hl] at hcompare
    exact (dist_le_iff_upper (hless l)).1 hcompare
  case below_of_odd =>
    intro l hl hodd
    have hinner : l < infiniteMagnitude := by omega
    have hcompare := h.dist_lt_of_odd hodd hinner (by omega)
    rw [hl] at hcompare
    exact (dist_lt_iff_upper (hless l)).1 hcompare

/-- A double of the other sign is at least as far away as zero. -/
theorem dist_zero_le (hq : 0 ≤ q) {y : Double} (hy : y.negative ≠ negative) :
    |q - valueAt 0| ≤ |signedRat negative q - y.toRat| := by
  rw [toRat_eq, dist_unlike hy hq (valueAt_nonneg _), valueAt_zero, sub_zero, abs_of_nonneg hq]
  exact le_add_of_nonneg_right (valueAt_nonneg _)

theorem nearest_of_rounds (hq : 0 ≤ q) (hfinite : x.isFinite = true) (h : Rounds q x.magnitude) :
    Nearest x.negative q x := by
  have hself : |signedRat x.negative q - x.toRat| = |q - valueAt x.magnitude| := by
    rw [toRat_eq, dist_signed]
  constructor
  case finite => exact hfinite
  case sign => rfl
  case inRange => exact h.lt_overflow (isFinite_iff.1 hfinite)
  case closest =>
    intro y _
    rw [hself]
    by_cases hsign : y.negative = x.negative
    · rw [toRat_eq y, hsign, dist_signed]
      exact h.closest _
    · exact (h.closest 0).trans (dist_zero_le hq hsign)
  case even =>
    intro y _ hne heq
    rw [hself] at heq
    rw [significand_mod_two]
    by_contra hpar
    have hodd : x.magnitude % 2 = 1 := by omega
    have hcloser : |q - valueAt x.magnitude| < |signedRat x.negative q - y.toRat| := by
      by_cases hsign : y.negative = x.negative
      · rw [toRat_eq y, hsign, dist_signed]
        refine h.closer_of_odd hodd ?_
        intro hmagnitude
        exact hne (by rw [toRat_eq, toRat_eq, hsign, hmagnitude])
      · exact (h.closer_of_odd hodd (by omega)).trans_le (dist_zero_le hq hsign)
    exact hcloser.ne' heq

/-- **The nearest finite double is the one of the right sign between whose midpoints the number
    lies.** -/
theorem nearest_iff (hq : 0 ≤ q) :
    Nearest negative q x ↔ x.negative = negative ∧ x.isFinite = true ∧ Rounds q x.magnitude := by
  constructor
  · exact fun h => ⟨h.sign, h.finite, h.rounds⟩
  · rintro ⟨rfl, hfinite, hrounds⟩
    exact nearest_of_rounds hq hfinite hrounds

/-- The nearest double is found by rounding to a magnitude. -/
theorem nearest_ofMagnitude_iff {m : Nat} (hq : 0 ≤ q) (h : RoundsTo q m) :
    Nearest negative q x ↔ x = ofMagnitude negative m ∧ x.isFinite = true := by
  rw [nearest_iff hq]
  constructor
  · rintro ⟨rfl, hfinite, hrounds⟩
    obtain rfl := RoundsTo.unique (.finite (isFinite_iff.1 hfinite) hrounds) h
    exact ⟨(ofMagnitude_magnitude x).symm, hfinite⟩
  · rintro ⟨rfl, hfinite⟩
    have hbits : m < signBit := by
      cases h with
      | finite hm _ => exact hm.trans infiniteMagnitude_lt
      | infinite hm _ => exact hm ▸ infiniteMagnitude_lt
    refine ⟨negative_ofMagnitude hbits, hfinite, ?_⟩
    rw [isFinite_iff, magnitude_ofMagnitude hbits] at hfinite
    rw [magnitude_ofMagnitude hbits]
    cases h with
    | finite _ hrounds => exact hrounds
    | infinite hm _ => exact absurd hm hfinite.ne

end Nearest

end XmlRpc.Double
