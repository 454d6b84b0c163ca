/-
  XmlRpc/Proofs/Rounding.lean
  ===========================
  **What it is for a number to be rounded to a double.**

  The magnitudes count the finite doubles upwards from zero.  `valueAt` says which number
  each stands for, and goes on after the last finite double, as if the exponents had no
  end.  A number is rounded to the magnitude between whose midpoints it lies, a midpoint
  belonging to the even one of its two neighbours (`Rounds`); there is one such magnitude at
  most (`Rounds.unique`).  Infinity takes over from the midpoint above the last finite double
  on (`RoundsTo`), and that midpoint is the number to which the last finite double and the
  power of two after it are equally near (`midpoint_lastFinite`).
-/
import XmlRpc.Number.Double
import Mathlib

namespace XmlRpc.Double

/-! ### The numbers that magnitudes stand for -/

/-- How many times the least positive double goes into the double of a magnitude. -/
def unitsAt (magnitude : Nat) : Nat :=
  if magnitude < hiddenBit then magnitude
  else (hiddenBit + magnitude % hiddenBit) * 2 ^ (magnitude / hiddenBit - 1)

/-- The number that a magnitude stands for. -/
def valueAt (magnitude : Nat) : ℚ :=
  unitsAt magnitude * 2 ^ leastExponent

/-- The number half-way between a magnitude and the next one. -/
def midpoint (magnitude : Nat) : ℚ :=
  (valueAt magnitude + valueAt (magnitude + 1)) / 2

/-- The doubles of one exponent, with the first one of the next, stand on the grid of its unit;
    at the least exponent so do all doubles down to zero. -/
theorem unitsAt_grid {k u : Nat} (hlow : k = 0 ∨ hiddenBit ≤ u) (hhigh : u ≤ 2 * hiddenBit) :
    unitsAt (k * hiddenBit + u) = u * 2 ^ k := by
  rw [unitsAt]
  rcases Nat.lt_or_ge u hiddenBit with hsmall | hlarge
  · obtain rfl : k = 0 := hlow.resolve_right (Nat.not_le.2 hsmall)
    rw [Nat.zero_mul, Nat.zero_add, if_pos hsmall, pow_zero, Nat.mul_one]
  · have hnormal : ¬k * hiddenBit + u < hiddenBit :=
      Nat.not_lt.2 (hlarge.trans (Nat.le_add_left _ _))
    rw [if_neg hnormal]
    rcases Nat.lt_or_ge u (2 * hiddenBit) with hinner | hnext
    · have hfraction : (k * hiddenBit + u) % hiddenBit = u - hiddenBit := by
        rw [hiddenBit] at *
        omega
      have hexponent : (k * hiddenBit + u) / hiddenBit - 1 = k := by
        rw [hiddenBit] at *
        omega
      rw [hfraction, hexponent, Nat.add_sub_cancel' hlarge]
    · obtain rfl : u = 2 * hiddenBit := Nat.le_antisymm hhigh hnext
      have hfraction : (k * hiddenBit + 2 * hiddenBit) % hiddenBit = 0 := by
        rw [hiddenBit]
        omega
      have hexponent : (k * hiddenBit + 2 * hiddenBit) / hiddenBit - 1 = k + 1 := by
        rw [hiddenBit]
        omega
      rw [hfraction, hexponent, pow_succ]
      ring

theorem unitsAt_succ (m : Nat) :
    unitsAt (m + 1) = unitsAt m + 2 ^ (m / hiddenBit - 1) := by
  obtain ⟨k, hk⟩ : ∃ k, k = m / hiddenBit - 1 := ⟨_, rfl⟩
  obtain ⟨u, rfl⟩ : ∃ u, m = k * hiddenBit + u := by
    refine ⟨m - k * hiddenBit, ?_⟩
    rw [hiddenBit] at *
    omega
  have hlow : k = 0 ∨ hiddenBit ≤ u := by
    rw [hiddenBit] at *
    omega
  have hhigh : u + 1 ≤ 2 * hiddenBit := by
    rw [hiddenBit] at *
    omega
  rw [← hk, Nat.add_assoc, unitsAt_grid (hlow.imp_right Nat.le_succ_of_le) hhigh,
    unitsAt_grid hlow (Nat.le_of_succ_le hhigh)]
  exact Nat.succ_mul u (2 ^ k)

theorem unitsAt_strictMono : StrictMono unitsAt := by
  refine strictMono_nat_of_lt_succ ?_
  intro m
  rw [unitsAt_succ]
  have := Nat.two_pow_pos (m / hiddenBit - 1)
  omega

theorem valueAt_strictMono : StrictMono valueAt := by
  intro m m' h
  have hunits : (unitsAt m : ℚ) < unitsAt m' := Nat.cast_lt.2 (unitsAt_strictMono h)
  have hunit : (0 : ℚ) < 2 ^ leastExponent := by positivity
  exact mul_lt_mul_of_pos_right hunits hunit

theorem midpoint_strictMono : StrictMono midpoint := by
  intro m m' h
  have hvalue := valueAt_strictMono h
  have hnext := valueAt_strictMono (Nat.add_lt_add_right h 1)
  rw [midpoint, midpoint]
  linarith

theorem valueAt_lt_midpoint (m : Nat) : valueAt m < midpoint m := by
  have h := valueAt_strictMono (Nat.lt_add_one m)
  rw [midpoint]
  linarith

theorem midpoint_lt_valueAt (m : Nat) : midpoint m < valueAt (m + 1) := by
  have h := valueAt_strictMono (Nat.lt_add_one m)
  rw [midpoint]
  linarith

theorem valueAt_grid {k u : Nat} (hlow : k = 0 ∨ hiddenBit ≤ u) (hhigh : u ≤ 2 * hiddenBit) :
    valueAt (k * hiddenBit + u) = u * 2 ^ (k + leastExponent) := by
  rw [valueAt, unitsAt_grid hlow hhigh, zpow_add₀ two_ne_zero, zpow_natCast, ← mul_assoc]
  push_cast
  rfl

/-- The next double is at least one unit of the grid above. -/
theorem valueAt_grid_succ {k u : Nat} (hlow : k = 0 ∨ hiddenBit ≤ u) (hhigh : u ≤ 2 * hiddenBit) :
    ((u + 1 : Nat) : ℚ) * 2 ^ (k + leastExponent) ≤ valueAt (k * hiddenBit + u + 1) := by
  rcases hhigh.lt_or_eq with hinner | rfl
  · rw [Nat.add_assoc, valueAt_grid (hlow.imp_right Nat.le_succ_of_le) hinner]
  · have hnext : k * hiddenBit + 2 * hiddenBit + 1 = (k + 1) * hiddenBit + (hiddenBit + 1) := by
      ring
    have hdouble : (2 : ℚ) ^ (((k + 1 : Nat) : ℤ) + leastExponent) =
        2 * 2 ^ (k + leastExponent) := by
      rw [Nat.cast_add_one, add_right_comm, zpow_add_one₀ two_ne_zero, mul_comm]
    have hpos : (0 : ℚ) < 2 ^ (k + leastExponent) := by positivity
    rw [hnext, valueAt_grid (Or.inr (Nat.le_succ _)) (by rw [hiddenBit]; omega), hdouble]
    push_cast
    linarith

theorem valueAt_zero : valueAt 0 = 0 := by
  simp [valueAt, unitsAt, hiddenBit]

/-! ### Between two midpoints -/

/-- The number is rounded to this magnitude, if exponents have no end. -/
structure Rounds (q : ℚ) (m : Nat) : Prop where
  above : q ≤ midpoint m
  above_of_odd : m % 2 = 1 → q < midpoint m
  below : ∀ l, m = l + 1 → midpoint l ≤ q
  below_of_odd : ∀ l, m = l + 1 → m % 2 = 1 → midpoint l < q

theorem Rounds.le {q : ℚ} {m m' : Nat} (h : Rounds q m) (h' : Rounds q m') : m' ≤ m := by
  by_contra hlt
  obtain ⟨l, rfl⟩ : ∃ l, m' = l + 1 := ⟨m' - 1, by omega⟩
  have hle : midpoint l ≤ midpoint m := (h'.below l rfl).trans h.above
  have hml : m = l := by
    have := midpoint_strictMono.le_iff_le.1 hle
    omega
  subst hml
  -- The number is the midpoint, and one of its two neighbours is odd.
  rcases Nat.mod_two_eq_zero_or_one m with heven | hodd
  · exact absurd (h'.below_of_odd m rfl (by omega)) (not_lt.2 h.above)
  · exact absurd (h.above_of_odd hodd) (not_lt.2 (h'.below m rfl))

theorem Rounds.unique {q : ℚ} {m m' : Nat} (h : Rounds q m) (h' : Rounds q m') : m = m' :=
  Nat.le_antisymm (h'.le h) (h.le h')

theorem rounds_valueAt (m : Nat) : Rounds (valueAt m) m where
  above := (valueAt_lt_midpoint m).le
  above_of_odd _ := valueAt_lt_midpoint m
  below := by
    rintro l rfl
    exact (midpoint_lt_valueAt l).le
  below_of_odd := by
    rintro l rfl -
    exact midpoint_lt_valueAt l

/-- The number from which on nothing is rounded to a finite double: half-way from the last one to
    `2 ^ 1024`. -/
def overflow : ℚ :=
  2 ^ 1024 - 2 ^ 970

theorem two_pow_le_overflow : (2 : ℚ) ^ 1023 ≤ overflow := by
  have hsmall : (2 : ℚ) ^ 970 ≤ 2 ^ 1023 := pow_le_pow_right₀ one_le_two (by norm_num)
  have hdouble : (2 : ℚ) ^ 1024 = 2 ^ 1023 + 2 ^ 1023 := by rw [← two_mul, ← pow_succ']
  rw [overflow, hdouble]
  exact le_sub_iff_add_le.2 (add_le_add_right hsmall _)

/-! ### Infinity -/

/-- The magnitude of the last finite double. -/
def lastFinite : Nat :=
  2045 * hiddenBit + (2 * hiddenBit - 1)

theorem infiniteMagnitude_eq : infiniteMagnitude = lastFinite + 1 := by
  norm_num [infiniteMagnitude, lastFinite, hiddenBit]

theorem infiniteMagnitude_pos : 0 < infiniteMagnitude :=
  infiniteMagnitude_eq ▸ Nat.succ_pos _

theorem lastFinite_odd : lastFinite % 2 = 1 := by
  norm_num [lastFinite, hiddenBit]

theorem midpoint_lastFinite : midpoint lastFinite = overflow := by
  have hunit : (2 : ℚ) ^ (((2045 : Nat) : ℤ) + leastExponent) = 2 ^ 970 * 2 := by
    rw [← pow_succ]
    exact zpow_natCast 2 971
  have hlast : valueAt lastFinite = (2 ^ 53 - 1) * (2 ^ 970 * 2) := by
    rw [lastFinite, valueAt_grid (Or.inr (by norm_num [hiddenBit])) (Nat.sub_le _ _), hunit]
    norm_num [hiddenBit]
  have hnext : valueAt (lastFinite + 1) = 2 ^ 53 * (2 ^ 970 * 2) := by
    have hgrid : lastFinite + 1 = 2045 * hiddenBit + 2 * hiddenBit := by
      norm_num [lastFinite, hiddenBit]
    rw [hgrid, valueAt_grid (Or.inr (by norm_num [hiddenBit])) le_rfl, hunit]
    norm_num [hiddenBit]
  have htop : (2 : ℚ) ^ 1024 = 2 ^ 54 * 2 ^ 970 := by rw [← pow_add]
  rw [midpoint, hlast, hnext, overflow, htop]
  generalize (2 : ℚ) ^ 970 = p
  ring

/-- The number is rounded to this magnitude; all that is too large is rounded to infinity. -/
inductive RoundsTo (q : ℚ) (m : Nat) : Prop where
  | finite (hm : m < infiniteMagnitude) (h : Rounds q m)
  | infinite (hm : m = infiniteMagnitude) (h : overflow ≤ q)

theorem Rounds.lt_overflow {q : ℚ} {m : Nat} (h : Rounds q m) (hm : m < infiniteMagnitude) :
    q < overflow := by
  rw [← midpoint_lastFinite]
  rw [infiniteMagnitude_eq, Nat.lt_succ_iff] at hm
  rcases hm.lt_or_eq with hlt | rfl
  · exact h.above.trans_lt (midpoint_strictMono hlt)
  · exact h.above_of_odd lastFinite_odd

theorem Rounds.overflow_le {q : ℚ} {m : Nat} (h : Rounds q m) (hm : infiniteMagnitude ≤ m) :
    overflow ≤ q := by
  rw [infiniteMagnitude_eq] at hm
  obtain ⟨l, rfl⟩ : ∃ l, m = l + 1 := ⟨m - 1, by omega⟩
  calc overflow
    _ = midpoint lastFinite := midpoint_lastFinite.symm
    _ ≤ midpoint l := midpoint_strictMono.monotone (Nat.le_of_succ_le_succ hm)
    _ ≤ q := h.below l rfl

theorem Rounds.roundsTo {q : ℚ} {m : Nat} (h : Rounds q m) :
    RoundsTo q (if m < infiniteMagnitude then m else infiniteMagnitude) := by
  split
  · next hm => exact .finite hm h
  · next hm => exact .infinite rfl (h.overflow_le (Nat.not_lt.1 hm))

theorem RoundsTo.unique {q : ℚ} {m m' : Nat} (h : RoundsTo q m) (h' : RoundsTo q m') : m = m' := by
  cases h with
  | finite hm h =>
    cases h' with
    | finite hm' h' => exact h.unique h'
    | infinite hm' h' => exact absurd (h.lt_overflow hm) (not_lt.2 h')
  | infinite hm h =>
    cases h' with
    | finite hm' h' => exact absurd (h'.lt_overflow hm') (not_lt.2 h)
    | infinite hm' h' => exact hm.trans hm'.symm

end XmlRpc.Double
