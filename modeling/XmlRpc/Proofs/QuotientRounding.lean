/-
  XmlRpc/Proofs/QuotientRounding.lean
  ===================================
  **Rounding a quotient finds the magnitude around which it lies.**

  `nearestMagnitude` rounds at one exponent, to a whole number of units.  What carries the
  proof is that the doubles around the number stand on the grid of this exponent
  (`NearestWhole.of_grid`): below the first double of an exponent they stand closer
  together, but then the number is not below it.

  A decimal is a quotient too, and is rounded as one unless its exponent alone decides
  (`roundsTo_decimalMagnitude`).
-/
import XmlRpc.Proofs.Rounding

namespace XmlRpc.Double

/-! ### Rounding on one grid -/

/-- The whole number nearest to a number, a half going to the even neighbour. -/
structure NearestWhole (r : ℚ) (u : Nat) : Prop where
  below : (u : ℚ) - 1 / 2 ≤ r
  above : r ≤ u + 1 / 2
  of_odd : u % 2 = 1 → (u : ℚ) - 1 / 2 < r ∧ r < u + 1 / 2

section Whole

variable {r : ℚ} {u bound : Nat}

theorem NearestWhole.le_of_le (h : NearestWhole r u) (hbound : (bound : ℚ) ≤ r) : bound ≤ u := by
  have hlt : (bound : ℚ) < ((u + 1 : Nat) : ℚ) := by
    push_cast
    linarith [h.above]
  exact Nat.le_of_lt_succ (Nat.cast_lt.1 hlt)

theorem NearestWhole.le_of_ge (h : NearestWhole r u) (hbound : r ≤ bound) : u ≤ bound := by
  have hlt : (u : ℚ) < ((bound + 1 : Nat) : ℚ) := by
    push_cast
    linarith [h.below]
  exact Nat.le_of_lt_succ (Nat.cast_lt.1 hlt)

end Whole

section Fraction

variable {whole : Nat} {f : ℚ}

theorem nearestWhole_down (hnonneg : 0 ≤ f) (hhalf : 2 * f < 1) :
    NearestWhole (whole + f) whole :=
  ⟨by linarith, by linarith, fun _ => ⟨by linarith, by linarith⟩⟩

theorem nearestWhole_up (hless : f < 1) (hhalf : 1 < 2 * f) :
    NearestWhole (whole + f) (whole + 1) := by
  constructor <;> push_cast
  · linarith
  · linarith
  · exact fun _ => ⟨by linarith, by linarith⟩

/-- Of the two neighbours of a half, the even one is taken. -/
theorem nearestWhole_half (hhalf : 2 * f = 1) :
    NearestWhole (whole + f) (whole + whole % 2) := by
  rcases Nat.mod_two_eq_zero_or_one whole with heven | hodd
  · rw [heven, Nat.add_zero]
    exact ⟨by linarith, by linarith, fun h => absurd h (by omega)⟩
  · rw [hodd]
    constructor
    · push_cast
      linarith
    · push_cast
      linarith
    · exact fun h => absurd h (by omega)

end Fraction

section Grid

variable {q r : ℚ} {k u : Nat}

theorem midpoint_grid (hlow : k = 0 ∨ hiddenBit ≤ u) (hhigh : u ≤ 2 * hiddenBit) :
    ((u : ℚ) + 1 / 2) * 2 ^ (k + leastExponent) ≤ midpoint (k * hiddenBit + u) := by
  have hvalue := valueAt_grid hlow hhigh
  have hnext := valueAt_grid_succ hlow hhigh
  push_cast at hnext
  rw [midpoint, hvalue]
  linarith

/-- The midpoint below is half a unit below too, unless a new exponent begins between. -/
theorem midpoint_grid_pred {l : Nat} (hl : k * hiddenBit + u = l + 1)
    (hlow : k = 0 ∨ hiddenBit < u) (hhigh : u ≤ 2 * hiddenBit) :
    midpoint l = ((u : ℚ) - 1 / 2) * 2 ^ (k + leastExponent) := by
  obtain ⟨v, rfl⟩ : ∃ v, u = v + 1 := by
    refine ⟨u - 1, ?_⟩
    rcases hlow with rfl | hlow <;> omega
  obtain rfl : l = k * hiddenBit + v := by omega
  have hprevious := valueAt_grid (hlow.imp_right Nat.le_of_lt_succ) (Nat.le_of_succ_le hhigh)
  have hvalue := valueAt_grid (hlow.imp_right Nat.le_of_lt) hhigh
  rw [midpoint, hprevious, Nat.add_assoc, hvalue]
  push_cast
  ring

/-- So the midpoint below is half a unit below, or it is below all of the grid that is used. -/
theorem midpoint_pred_cases {l : Nat} (hl : k * hiddenBit + u = l + 1)
    (hq : q = r * 2 ^ (k + leastExponent))
    (hlow : k = 0 ∨ (hiddenBit : ℚ) ≤ r ∧ hiddenBit ≤ u) (hhigh : u ≤ 2 * hiddenBit) :
    midpoint l = ((u : ℚ) - 1 / 2) * 2 ^ (k + leastExponent) ∨ midpoint l < q := by
  by_cases hinner : k = 0 ∨ hiddenBit < u
  · exact Or.inl (midpoint_grid_pred hl hinner hhigh)
  · right
    obtain ⟨hr, hu⟩ := hlow.resolve_left fun hk => hinner (Or.inl hk)
    have hfirst : u = hiddenBit := by omega
    calc midpoint l
      _ < valueAt (l + 1) := midpoint_lt_valueAt l
      _ = u * 2 ^ (k + leastExponent) := by rw [← hl, valueAt_grid (Or.inr hu) hhigh]
      _ ≤ q := by
        rw [hq, hfirst]
        exact mul_le_mul_of_nonneg_right hr (by positivity)

/-- What is rounded to a whole number of units is rounded to a double, if its exponent is that of
    the unit. -/
theorem NearestWhole.of_grid (h : NearestWhole r u) (hq : q = r * 2 ^ (k + leastExponent))
    (hlow : k = 0 ∨ (hiddenBit : ℚ) ≤ r ∧ hiddenBit ≤ u) (hhigh : u ≤ 2 * hiddenBit) :
    Rounds q (k * hiddenBit + u) := by
  have hunit : (0 : ℚ) < 2 ^ (k + leastExponent) := by positivity
  have hparity : (k * hiddenBit + u) % 2 = u % 2 := by
    rw [hiddenBit]
    omega
  have hmidpoint := midpoint_grid (hlow.imp_right And.right) hhigh
  constructor
  case above =>
    rw [hq]
    exact (mul_le_mul_of_nonneg_right h.above hunit.le).trans hmidpoint
  case above_of_odd =>
    intro hodd
    rw [hq]
    exact (mul_lt_mul_of_pos_right (h.of_odd (hparity ▸ hodd)).2 hunit).trans_le hmidpoint
  case below =>
    intro l hl
    rcases midpoint_pred_cases hl hq hlow hhigh with heq | hlt
    · rw [heq, hq]
      exact mul_le_mul_of_nonneg_right h.below hunit.le
    · exact hlt.le
  case below_of_odd =>
    intro l hl hodd
    rcases midpoint_pred_cases hl hq hlow hhigh with heq | hlt
    · rw [heq, hq]
      exact mul_lt_mul_of_pos_right (h.of_odd (hparity ▸ hodd)).1 hunit
    · exact hlt

end Grid

/-! ### The algorithm -/

theorem nearestWhole_roundQuotient (n : Nat) {d : Nat} (hd : 0 < d) :
    NearestWhole (n / d) (roundQuotient n d) := by
  have hpos : (0 : ℚ) < d := Nat.cast_pos.2 hd
  obtain ⟨f, hf⟩ : ∃ f : ℚ, f = (n % d : Nat) / d := ⟨_, rfl⟩
  have hsplit : (n / d : ℚ) = (n / d : Nat) + f := by
    rw [hf, eq_comm, add_div' _ _ _ hpos.ne', div_left_inj' hpos.ne']
    exact_mod_cast Nat.div_add_mod' n d
  have hnonneg : 0 ≤ f := by
    rw [hf]
    positivity
  have hless : f < 1 := by
    rw [hf, div_lt_one hpos]
    exact_mod_cast Nat.mod_lt n hd
  have htwice : 2 * f = ((2 * (n % d) : Nat) : ℚ) / d := by
    rw [hf]
    push_cast
    ring
  rw [hsplit]
  change NearestWhole _ (if 2 * (n % d) < d then n / d
    else if d < 2 * (n % d) then n / d + 1 else n / d + n / d % 2)
  split
  · next hbelow =>
    refine nearestWhole_down hnonneg ?_
    rw [htwice, div_lt_one hpos]
    exact_mod_cast hbelow
  · split
    · next habove =>
      refine nearestWhole_up hless ?_
      rw [htwice, one_lt_div hpos]
      exact_mod_cast habove
    · next hbelow habove =>
      refine nearestWhole_half ?_
      rw [htwice, div_eq_one_iff_eq hpos.ne']
      exact_mod_cast Nat.le_antisymm (Nat.not_lt.1 habove) (Nat.not_lt.1 hbelow)

/-- A power with a negative exponent stands on the other side of a quotient. -/
theorem scaled_quotient (n d : Nat) {base : Nat} (hbase : 0 < base) (z : ℤ) :
    ((n * Nat.pow base (-z).toNat : Nat) : ℚ) / ((d * Nat.pow base z.toNat : Nat) : ℚ) =
      n / d / (base : ℚ) ^ z := by
  have hpos : (base : ℚ) ≠ 0 := Nat.cast_ne_zero.2 hbase.ne'
  obtain ⟨k, rfl | rfl⟩ := z.eq_nat_or_neg
  · have hneg : (-(k : ℤ)).toNat = 0 := by omega
    rw [hneg, Int.toNat_natCast, zpow_natCast, Nat.pow_eq, Nat.pow_eq, pow_zero, mul_one,
      Nat.cast_mul, Nat.cast_pow, div_div]
  · have hneg : (-(k : ℤ)).toNat = 0 := by omega
    rw [neg_neg, hneg, Int.toNat_natCast, zpow_neg, zpow_natCast, div_inv_eq_mul, Nat.pow_eq,
      Nat.pow_eq, pow_zero, mul_one, Nat.cast_mul, Nat.cast_pow, mul_div_right_comm]

/-- The difference of the two logarithms is off by less than one. -/
theorem log2_quotient {n d : Nat} (hn : 0 < n) (hd : 0 < d) :
    (2 : ℚ) ^ ((n.log2 : ℤ) - d.log2 - 1) ≤ n / d ∧
      (n / d : ℚ) < 2 ^ ((n.log2 : ℤ) - d.log2 + 1) := by
  have hpos : (0 : ℚ) < d := Nat.cast_pos.2 hd
  obtain ⟨guess, hguess⟩ : ∃ guess : ℤ, guess = (n.log2 : ℤ) - d.log2 := ⟨_, rfl⟩
  rw [← hguess]
  constructor
  · have hsum : guess - 1 + ((d.log2 + 1 : Nat) : ℤ) = n.log2 := by omega
    rw [le_div_iff₀ hpos]
    calc (2 : ℚ) ^ (guess - 1) * d
      _ ≤ 2 ^ (guess - 1) * 2 ^ (d.log2 + 1) := by
        refine mul_le_mul_of_nonneg_left ?_ (by positivity)
        exact_mod_cast Nat.lt_log2_self.le
      _ = 2 ^ n.log2 := by rw [← zpow_natCast, ← zpow_add₀ two_ne_zero, hsum, zpow_natCast]
      _ ≤ n := by exact_mod_cast Nat.log2_self_le hn.ne'
  · have hsum : guess + 1 + (d.log2 : ℤ) = (n.log2 + 1 : Nat) := by omega
    rw [div_lt_iff₀ hpos]
    calc (n : ℚ)
      _ < 2 ^ (n.log2 + 1) := by exact_mod_cast Nat.lt_log2_self
      _ = 2 ^ (guess + 1) * 2 ^ d.log2 := by
        rw [← zpow_natCast, ← zpow_natCast, ← zpow_add₀ two_ne_zero, hsum]
      _ ≤ 2 ^ (guess + 1) * d := by
        refine mul_le_mul_of_nonneg_left ?_ (by positivity)
        exact_mod_cast Nat.log2_self_le hd.ne'

theorem floorLog2_spec {n d : Nat} (hn : 0 < n) (hd : 0 < d) :
    (2 : ℚ) ^ floorLog2 n d ≤ n / d ∧ (n / d : ℚ) < 2 ^ (floorLog2 n d + 1) := by
  obtain ⟨hlow, hhigh⟩ := log2_quotient hn hd
  obtain ⟨guess, hguess⟩ : ∃ guess : ℤ, guess = (n.log2 : ℤ) - d.log2 := ⟨_, rfl⟩
  have htest : d * Nat.pow 2 guess.toNat ≤ n * Nat.pow 2 (-guess).toNat ↔
      (2 : ℚ) ^ guess ≤ n / d := by
    have hpos : (0 : ℚ) < ((d * Nat.pow 2 guess.toNat : Nat) : ℚ) :=
      Nat.cast_pos.2 (Nat.mul_pos hd (Nat.two_pow_pos _))
    have hunit : (0 : ℚ) < (2 : Nat) ^ guess := by positivity
    rw [← Nat.cast_le (α := ℚ), ← one_le_div hpos, scaled_quotient n d two_pos guess,
      one_le_div hunit, Nat.cast_two]
  subst hguess
  by_cases h : (2 : ℚ) ^ ((n.log2 : ℤ) - d.log2) ≤ n / d
  · have hfloor : floorLog2 n d = n.log2 - d.log2 := if_pos (htest.2 h)
    rw [hfloor]
    exact ⟨h, hhigh⟩
  · have hfloor : floorLog2 n d = n.log2 - d.log2 - 1 := if_neg (mt htest.1 h)
    rw [hfloor, sub_add_cancel]
    exact ⟨hlow, not_le.1 h⟩

theorem roundsTo_zero : RoundsTo 0 0 := by
  have hrounds := rounds_valueAt 0
  rw [valueAt_zero] at hrounds
  exact .finite infiniteMagnitude_pos hrounds

/-- **The quotient is rounded to the nearest double.** -/
theorem roundsTo_nearestMagnitude (n : Nat) {d : Nat} (hd : 0 < d) :
    RoundsTo (n / d) (nearestMagnitude n d) := by
  rcases n.eq_zero_or_pos with rfl | hn
  · rw [Nat.cast_zero, zero_div]
    exact roundsTo_zero
  obtain ⟨hlow, hhigh⟩ := floorLog2_spec hn hd
  obtain ⟨scale, hscale⟩ : ∃ scale, scale = if floorLog2 n d - 52 < leastExponent
    then leastExponent else floorLog2 n d - 52 := ⟨_, rfl⟩
  have hunit : (0 : ℚ) < 2 ^ scale := by positivity
  have hcases : scale = leastExponent ∨ floorLog2 n d = scale + 52 := by
    split at hscale <;> omega
  have hbound : floorLog2 n d + 1 ≤ scale + 53 ∧ leastExponent ≤ scale := by
    split at hscale <;> omega
  have hexponent : ((scale - leastExponent).toNat : ℤ) + leastExponent = scale := by omega
  -- What is left to do is rounding at the exponent `scale`.
  have hdenominator : 0 < d * Nat.pow 2 scale.toNat := Nat.mul_pos hd (Nat.two_pow_pos _)
  have hnear := nearestWhole_roundQuotient (n * Nat.pow 2 (-scale).toNat) hdenominator
  rw [scaled_quotient n d two_pos scale, Nat.cast_two] at hnear
  have hquotient : (n / d : ℚ) =
      n / d / 2 ^ scale * 2 ^ (((scale - leastExponent).toNat : ℤ) + leastExponent) := by
    rw [hexponent, div_mul_cancel₀ _ hunit.ne']
  have habove : (n / d / 2 ^ scale : ℚ) ≤ (2 * hiddenBit : Nat) := by
    rw [div_le_iff₀ hunit]
    calc (n / d : ℚ)
      _ ≤ 2 ^ (scale + 53) := hhigh.le.trans (zpow_le_zpow_right₀ one_le_two hbound.1)
      _ = (2 * hiddenBit : Nat) * 2 ^ scale := by
        rw [zpow_add₀ two_ne_zero, mul_comm]
        norm_num [hiddenBit]
  have hbelow : (scale - leastExponent).toNat = 0 ∨ (hiddenBit : ℚ) ≤ n / d / 2 ^ scale := by
    refine hcases.imp (fun heq => by omega) ?_
    intro heq
    rw [le_div_iff₀ hunit]
    calc (hiddenBit : ℚ) * 2 ^ scale
      _ = 2 ^ (scale + 52) := by
        rw [zpow_add₀ two_ne_zero, mul_comm]
        norm_num [hiddenBit]
      _ ≤ n / d := heq ▸ hlow
  rw [nearestMagnitude, if_neg hn.ne']
  subst hscale
  exact (hnear.of_grid hquotient (hbelow.imp_right fun h => ⟨h, hnear.le_of_le h⟩)
    (hnear.le_of_ge habove)).roundsTo

/-! ### Decimals -/

theorem decimal_lt (coefficient : Nat) (exponent : ℤ) :
    (coefficient * 10 ^ exponent : ℚ) <
      10 ^ (exponent + (Numeral.digits coefficient).length) := by
  have hdigits : coefficient < 10 ^ (Numeral.digits coefficient).length :=
    (Nat.length_toDigits_le_iff (by decide) Nat.length_toDigits_pos).1 le_rfl
  rw [zpow_add₀ (by norm_num), mul_comm, zpow_natCast]
  refine mul_lt_mul_of_pos_left ?_ (by positivity)
  exact_mod_cast hdigits

theorem decimal_ge {coefficient : Nat} (hpos : 0 < coefficient) (exponent : ℤ) :
    (10 : ℚ) ^ (exponent + (Numeral.digits coefficient).length - 1) ≤
      coefficient * 10 ^ exponent := by
  obtain ⟨rest, hrest⟩ : ∃ rest, (Numeral.digits coefficient).length = rest + 1 :=
    Nat.exists_eq_add_one.2 Nat.length_toDigits_pos
  have hdigits : 10 ^ rest ≤ coefficient := by
    rcases rest.eq_zero_or_pos with rfl | hsome
    · exact hpos
    · rw [← Nat.not_lt, ← Nat.length_toDigits_le_iff (by decide) hsome]
      exact Nat.not_le.2 (hrest ▸ Nat.lt_add_one rest)
  have hsum : exponent + ((rest + 1 : Nat) : ℤ) - 1 = exponent + rest := by
    push_cast
    ring
  rw [hrest, hsum, zpow_add₀ (by norm_num), mul_comm, zpow_natCast]
  refine mul_le_mul_of_nonneg_right ?_ (by positivity)
  exact_mod_cast hdigits

theorem two_pow_1024_le : (2 : ℚ) ^ 1024 ≤ 10 ^ 310 := by
  calc (2 : ℚ) ^ 1024
    _ = (2 ^ 128) ^ 8 := by rw [← pow_mul]
    _ ≤ (10 ^ 37 * 35) ^ 8 := pow_le_pow_left₀ (by norm_num) (by norm_num) 8
    _ = 10 ^ 296 * 35 ^ 8 := by rw [mul_pow, ← pow_mul]
    _ ≤ 10 ^ 296 * 10 ^ 14 := mul_le_mul_of_nonneg_left (by norm_num) (by positivity)
    _ = 10 ^ 310 := by rw [← pow_add]

theorem overflow_le : overflow ≤ 10 ^ 310 := by
  have hpos : (0 : ℚ) ≤ 2 ^ 970 := by positivity
  exact (sub_le_self _ hpos).trans two_pow_1024_le

theorem le_midpoint_zero : (10 : ℚ) ^ (-331 : ℤ) ≤ midpoint 0 := by
  have hunits : unitsAt 1 = 1 := if_pos (by norm_num [hiddenBit])
  have hmidpoint : midpoint 0 = (2 ^ 1075)⁻¹ := by
    rw [midpoint, valueAt_zero, valueAt, hunits, Nat.cast_one, one_mul, zero_add, leastExponent,
      zpow_neg, ← one_div, div_div, one_div]
    exact congrArg _ (pow_succ (2 : ℚ) 1074).symm
  have hpower : (2 : ℚ) ^ 1075 ≤ 10 ^ 331 := by
    calc (2 : ℚ) ^ 1075
      _ = 2 ^ 1024 * 2 ^ 51 := by rw [← pow_add]
      _ ≤ 10 ^ 310 * 10 ^ 21 :=
        mul_le_mul two_pow_1024_le (by norm_num) (by positivity) (by positivity)
      _ = 10 ^ 331 := by rw [← pow_add]
  rw [hmidpoint, zpow_neg]
  exact inv_anti₀ (by positivity) hpower

/-- **A decimal is rounded to the nearest double**, also where its exponent alone decides. -/
theorem roundsTo_decimalMagnitude (coefficient : Nat) (exponent : ℤ) :
    RoundsTo (coefficient * 10 ^ exponent) (decimalMagnitude coefficient exponent) := by
  obtain ⟨reach, hreach⟩ :
      ∃ reach, reach = exponent + (Numeral.digits coefficient).length := ⟨_, rfl⟩
  unfold decimalMagnitude
  dsimp only
  rw [← hreach]
  split
  · next hzero =>
    rw [hzero, Nat.cast_zero, zero_mul]
    exact roundsTo_zero
  · next hsome =>
    split
    · next hlarge =>
      refine .infinite rfl ?_
      calc overflow
        _ ≤ 10 ^ 310 := overflow_le
        _ = 10 ^ (310 : ℤ) := (zpow_natCast 10 310).symm
        _ ≤ 10 ^ (reach - 1) := zpow_le_zpow_right₀ (by norm_num) (by omega)
        _ ≤ coefficient * 10 ^ exponent := hreach ▸ decimal_ge (Nat.pos_of_ne_zero hsome) exponent
    · split
      · next hsmall =>
        have hbelow : (coefficient * 10 ^ exponent : ℚ) < midpoint 0 := by
          calc (coefficient * 10 ^ exponent : ℚ)
            _ < 10 ^ reach := hreach ▸ decimal_lt coefficient exponent
            _ ≤ 10 ^ (-331 : ℤ) := zpow_le_zpow_right₀ (by norm_num) (by omega)
            _ ≤ midpoint 0 := le_midpoint_zero
        refine .finite infiniteMagnitude_pos ⟨hbelow.le, ?_, ?_, ?_⟩
        · exact fun _ => hbelow
        · exact fun l hl => absurd hl (by omega)
        · exact fun l hl => absurd hl (by omega)
      · have hquotient := scaled_quotient coefficient 1 (by decide : 0 < 10) (-exponent)
        rw [neg_neg, Nat.one_mul, Nat.cast_one, div_one, zpow_neg, div_inv_eq_mul,
          Nat.cast_ofNat] at hquotient
        rw [← hquotient]
        exact roundsTo_nearestMagnitude _ (Nat.pow_pos (by decide))

end XmlRpc.Double
