/-
  XmlRpc/Proofs/DoubleTexts.lean
  ==============================
  **A double that is written is read again, bit for bit.**

  A payload is plain decimal notation: a minus if the double is negative, digits, and after a
  point more digits (`IsPlain`).  Laying out a decimal drops the zeros at the end of its digits
  and puts them, or a point, where the exponent asks for them; the number stays the same
  (`isPlain_writtenOut`).

  The decimal that is written need not be equal to the double, but it is read back as the double
  (`ofDecimal_toDecimal`).  For the shorter ones this has been tried before they are taken; the
  exact decimal behind them is the double itself, and the double is the only one to which it can
  be rounded.  So the text denotes a number to which the double is nearest, and the sign goes
  its own way, through zero too.
-/
import XmlRpc.Number.Written
import XmlRpc.Proofs.DoubleScalars
import XmlRpc.Proofs.RoundTrip

namespace XmlRpc

open Numeral (AllDigits Sign)

namespace Decimal

/-! ### Plain notation -/

/-- Digits, and if there is a point digits after it too: no sign and no exponent. -/
inductive IsPlain : List Char → ℚ → Prop where
  | whole {digits : List Char} (hsome : digits ≠ []) (hdigits : AllDigits digits) :
      IsPlain digits (Numeral.value digits)
  | pointed {whole fraction : List Char} (hwhole : whole ≠ []) (hfraction : fraction ≠ [])
      (hdigits : AllDigits (whole ++ fraction)) :
      IsPlain (whole ++ '.' :: fraction) (pointValue whole fraction)

theorem IsPlain.isNumeral {sign text : List Char} {negative : Bool} {q : ℚ} (h : IsPlain text q)
    (hsign : Sign sign negative) : IsNumeral (sign ++ text) negative q := by
  cases h with
  | whole hsome hdigits =>
    have hnumeral := IsNumeral.intro hsign (.plain hdigits) (by rwa [List.append_nil]) .absent
    rw [List.append_nil, zpow_zero, mul_one, pointValue_nil] at hnumeral
    exact hnumeral
  | pointed hwhole hfraction hdigits =>
    have hmantissa := Mantissa.pointed (fun c hc => hdigits c (List.mem_append_left _ hc))
      (fun c hc => hdigits c (List.mem_append_right _ hc))
    have hnumeral :=
      IsNumeral.intro hsign hmantissa (List.append_ne_nil_of_left_ne_nil hwhole _) .absent
    rw [List.append_nil, zpow_zero, mul_one] at hnumeral
    exact hnumeral

theorem isPlain_pointed {whole fraction : List Char} (hwhole : whole ≠ []) (hfraction : fraction ≠ [])
    (hdigits : AllDigits (whole ++ fraction)) :
    IsPlain (whole ++ '.' :: fraction)
      (Numeral.value (whole ++ fraction) * 10 ^ (-(fraction.length : ℤ))) := by
  have hplain := IsPlain.pointed hwhole hfraction hdigits
  rw [pointValue_eq, div_eq_mul_inv, ← zpow_natCast, ← zpow_neg] at hplain
  exact hplain

/-- Plain notation, after a minus if the number is negative. -/
def IsSignedPlain (text : List Char) (negative : Bool) (q : ℚ) : Prop :=
  ∃ body, text = (if negative then '-' :: body else body) ∧ IsPlain body q

theorem IsSignedPlain.isNumeral {text : List Char} {negative : Bool} {q : ℚ}
    (h : IsSignedPlain text negative q) : IsNumeral text negative q := by
  obtain ⟨body, rfl, hbody⟩ := h
  cases negative with
  | false => exact hbody.isNumeral .absent
  | true => exact hbody.isNumeral .minus

end Decimal

namespace NumberStyle

open Decimal (IsPlain IsSignedPlain isPlain_pointed)

/-! ### Layout -/

theorem significantDigits_append_zeros (coefficient : Nat) :
    ∃ k, Numeral.digits coefficient =
      significantDigits coefficient ++ List.replicate k '0' := by
  unfold significantDigits
  split
  · next hzero =>
    subst hzero
    exact ⟨0, rfl⟩
  · obtain ⟨reversed, hreversed⟩ : ∃ r, r = (Numeral.digits coefficient).reverse := ⟨_, rfl⟩
    obtain ⟨zeros, hzeros⟩ : ∃ z, z = reversed.takeWhile (· = '0') := ⟨_, rfl⟩
    have hall : zeros = List.replicate zeros.length '0' := by
      refine List.eq_replicate_of_mem ?_
      intro c hc
      rw [hzeros] at hc
      exact of_decide_eq_true (List.all_eq_true.1 List.all_takeWhile c hc)
    refine ⟨zeros.length, ?_⟩
    rw [← hreversed, ← List.reverse_replicate, ← hall, ← List.reverse_append, hzeros,
      List.takeWhile_append_dropWhile, hreversed, List.reverse_reverse]

theorem significantDigits_ne_nil (coefficient : Nat) : significantDigits coefficient ≠ [] := by
  by_cases hzero : coefficient = 0
  · rw [significantDigits, if_pos hzero]
    exact List.cons_ne_nil _ _
  · intro hnil
    obtain ⟨k, hdigits⟩ := significantDigits_append_zeros coefficient
    rw [hnil, List.nil_append] at hdigits
    have hvalue := Numeral.value_digits coefficient
    rw [hdigits, Numeral.value_replicate_zero] at hvalue
    exact hzero hvalue.symm

theorem allDigits_significantDigits (coefficient : Nat) :
    AllDigits (significantDigits coefficient) := by
  obtain ⟨k, hdigits⟩ := significantDigits_append_zeros coefficient
  intro c hc
  refine Numeral.allDigits_digits coefficient c ?_
  rw [hdigits]
  exact List.mem_append_left _ hc

/-- The digits around a point denote what they denote with the first one at its place. -/
theorem isPlain_writtenOut {digits : List Char} (hsome : digits ≠ []) (hdigits : AllDigits digits)
    (power : ℤ) :
    IsPlain (payload.writtenOut digits power)
      (Numeral.value digits * 10 ^ (power + 1 - digits.length)) := by
  unfold writtenOut
  split
  -- All digits stand after the point, behind zeros.
  · next hsmall =>
    obtain ⟨fraction, hfraction⟩ :
        ∃ f, f = List.replicate (-power - 1).toNat '0' ++ digits := ⟨_, rfl⟩
    have hexponent : power + 1 - digits.length = -(fraction.length : ℤ) := by
      rw [hfraction, List.length_append, List.length_replicate]
      omega
    have hall : AllDigits (['0'] ++ fraction) := by
      rw [hfraction]
      exact (Numeral.allDigits_replicate_zero 1).append
        ((Numeral.allDigits_replicate_zero _).append hdigits)
    have hvalue : Numeral.value (['0'] ++ fraction) = Numeral.value digits := by
      rw [hfraction, ← List.append_assoc, Numeral.value_append]
      change Numeral.value (List.replicate (_ + 1) '0') * _ + _ = _
      rw [Numeral.value_replicate_zero, Nat.zero_mul, Nat.zero_add]
    change IsPlain (['0'] ++ '.' :: (List.replicate _ '0' ++ digits)) _
    rw [← hfraction, hexponent, ← hvalue]
    refine isPlain_pointed (List.cons_ne_nil _ _) ?_ hall
    rw [hfraction]
    exact List.append_ne_nil_of_right_ne_nil _ hsome
  · next hlarge =>
    obtain ⟨wholeLength, hlength⟩ : ∃ l, l = power.toNat + 1 := ⟨_, rfl⟩
    simp only [← hlength]
    split
    -- There is no point, and the zeros stand behind the digits.
    · next hshort =>
      have hexponent : power + 1 - digits.length = (wholeLength - digits.length : Nat) := by omega
      have hvalue : (Numeral.value digits * 10 ^ (power + 1 - digits.length) : ℚ) =
          Numeral.value (digits ++ List.replicate (wholeLength - digits.length) '0') := by
        rw [hexponent, zpow_natCast, Numeral.value_append, List.length_replicate,
          Numeral.value_replicate_zero]
        push_cast
        ring
      change IsPlain (_ ++ []) _
      rw [List.append_nil, hvalue]
      exact .whole (List.append_ne_nil_of_left_ne_nil hsome _)
        (hdigits.append (Numeral.allDigits_replicate_zero _))
    -- The point stands among the digits.
    · next hlong =>
      have hexponent : power + 1 - digits.length = -((digits.drop wholeLength).length : ℤ) := by
        rw [List.length_drop]
        omega
      have hwhole : digits.take wholeLength ≠ [] := by
        rw [← List.length_pos_iff, List.length_take]
        omega
      have hfraction : digits.drop wholeLength ≠ [] := by
        rw [← List.length_pos_iff, List.length_drop]
        omega
      have hplain := isPlain_pointed hwhole hfraction (by rwa [List.take_append_drop])
      rw [List.take_append_drop, ← hexponent] at hplain
      exact hplain

/-- **A payload is plain notation for the decimal that is written.** -/
theorem isSignedPlain_layout (d : Decimal) :
    IsSignedPlain (payload.layout d) d.negative d.distance := by
  obtain ⟨k, hdigits⟩ := significantDigits_append_zeros d.coefficient
  obtain ⟨power, hpower⟩ :
      ∃ p, p = d.exponent + (Numeral.digits d.coefficient).length - 1 := ⟨_, rfl⟩
  have hplain := isPlain_writtenOut (significantDigits_ne_nil d.coefficient)
    (allDigits_significantDigits d.coefficient) power
  have hvalue : Numeral.value (significantDigits d.coefficient) * 10 ^ k = d.coefficient := by
    have hread := Numeral.value_digits d.coefficient
    rw [hdigits, Numeral.value_append, Numeral.value_replicate_zero, List.length_replicate,
      Nat.add_zero] at hread
    exact hread
  have hexponent : power + 1 - (significantDigits d.coefficient).length = k + d.exponent := by
    rw [hpower, hdigits, List.length_append, List.length_replicate]
    omega
  have hdistance : d.distance = Numeral.value (significantDigits d.coefficient) *
      10 ^ (power + 1 - (significantDigits d.coefficient).length) := by
    rw [Decimal.distance, hexponent, zpow_add₀ (by norm_num), zpow_natCast, ← mul_assoc]
    exact congrArg (· * _) (by exact_mod_cast hvalue.symm)
  rw [hdistance]
  exact ⟨_, by rw [hpower]; rfl, hplain⟩

end NumberStyle

namespace Double

open Decimal (IsSignedPlain)

/-! ### The decimal that is written -/

/-- The decimal is read back as the double. -/
structure ReadsBack (x : Double) (d : Decimal) : Prop where
  sign : d.negative = x.negative
  magnitude : decimalMagnitude d.coefficient d.exponent = x.magnitude

/-- A candidate is only taken if it has been read back. -/
theorem readsBack_of_candidate {x : Double} {coefficient : Nat} {grid : ℤ} {d : Decimal}
    {others : Option Decimal}
    (h : (if decide (decimalMagnitude coefficient grid = x.magnitude) = true
      then some ⟨x.negative, coefficient, grid⟩ else others) = some d) :
    ReadsBack x d ∨ others = some d := by
  split at h
  · next hreads =>
    cases h
    exact Or.inl ⟨rfl, of_decide_eq_true hreads⟩
  · exact Or.inr h

theorem readsBack_of_onGrid? {tie : Tie} {x : Double} {grid : ℤ} {d : Decimal}
    (h : onGrid? tie x grid = some d) : ReadsBack x d := by
  unfold onGrid? at h
  rcases readsBack_of_candidate h with hnearer | h
  · exact hnearer
  · rcases readsBack_of_candidate h with hbelow | h
    · exact hbelow
    · rcases readsBack_of_candidate h with habove | h
      · exact habove
      · cases h

theorem distance_exactDecimal (x : Double) : x.exactDecimal.distance = valueAt x.magnitude := by
  rw [← significand_mul, exactDecimal, Decimal.distance, numerator]
  generalize x.exponent = e
  obtain ⟨k, rfl | rfl⟩ := e.eq_nat_or_neg
  · have hneg : (-(k : ℤ)).toNat = 0 := by omega
    simp only [hneg, Int.toNat_natCast, Nat.pow_eq, pow_zero, mul_one, Nat.cast_zero, neg_zero,
      zpow_zero, zpow_natCast]
    push_cast
    rfl
  · have hneg : (-(k : ℤ)).toNat = 0 := by omega
    have hten : (10 : ℚ) ^ k = 2 ^ k * 5 ^ k := by rw [← mul_pow]; norm_num
    have hfive : (5 : ℚ) ^ k ≠ 0 := by positivity
    simp only [hneg, neg_neg, Int.toNat_natCast, Nat.pow_eq, pow_zero, mul_one, zpow_neg,
      zpow_natCast, hten]
    push_cast
    field_simp

theorem readsBack_exactDecimal {x : Double} (h : x.isFinite = true) :
    ReadsBack x x.exactDecimal := by
  refine ⟨rfl, ?_⟩
  -- The decimal and the double are one number, which is rounded to one magnitude only.
  have hrounds := roundsTo_decimalMagnitude x.exactDecimal.coefficient x.exactDecimal.exponent
  have hexact : RoundsTo (valueAt x.magnitude) x.magnitude :=
    .finite (isFinite_iff.1 h) (rounds_valueAt _)
  rw [← distance_exactDecimal] at hexact
  exact hrounds.unique hexact

theorem readsBack_toDecimal (tie : Tie) {x : Double} (h : x.isFinite = true) :
    ReadsBack x (x.toDecimal tie) := by
  unfold toDecimal
  split
  · next hzero => exact ⟨rfl, hzero.symm⟩
  · dsimp only
    obtain ⟨found, hfound⟩ : ∃ found, found = (List.range 17).findSome? fun (extra : Nat) =>
      onGrid? tie x (floorLog10 x.numerator x.denominator - extra) := ⟨_, rfl⟩
    rw [← hfound]
    cases found with
    | none => exact readsBack_exactDecimal h
    | some d =>
      obtain ⟨extra, -, hd⟩ := List.exists_of_findSome?_eq_some hfound.symm
      exact readsBack_of_onGrid? hd

/-- **Reading undoes writing**, for every finite double. -/
theorem ofDecimal_toDecimal (tie : Tie) {x : Double} (h : x.isFinite = true) :
    ofDecimal (x.toDecimal tie) = x := by
  obtain ⟨hsign, hmagnitude⟩ := readsBack_toDecimal tie h
  rw [ofDecimal, hsign, hmagnitude, ofMagnitude_magnitude]

/-- The double is the one nearest to the decimal that is written. -/
theorem nearest_toDecimal {x : Double} (h : x.isFinite = true) :
    Nearest x.negative (x.toDecimal .up).distance x := by
  rw [← (readsBack_toDecimal .up h).sign]
  exact nearest_ofDecimal_iff.2 ⟨ofDecimal_toDecimal .up h, h⟩

theorem isSignedPlain_render {x : Double} (h : x.isFinite = true) :
    IsSignedPlain (x.render .payload).toList x.negative (x.toDecimal .up).distance := by
  rw [render, String.toList_ofList, ← (readsBack_toDecimal .up h).sign]
  exact NumberStyle.isSignedPlain_layout _

theorem parse?_render {x : Double} (h : x.isFinite = true) :
    parse? (x.render .payload) = some x := by
  have hpadded : Text.Padded (x.render .payload).toList (x.render .payload).toList :=
    ⟨[], [], by simp, List.forall_mem_nil _, List.forall_mem_nil _⟩
  exact parse?_eq_some_iff.2
    ⟨_, _, ⟨_, hpadded, (isSignedPlain_render h).isNumeral⟩, nearest_toDecimal h⟩

end Double

/-! ### Nodes of doubles -/

theorem Reply.decode_envelope_double (raw : String) :
    decode (envelope (Node.scalar ⟨.double, raw⟩).toWire) = .ok (.scalar ⟨.double, raw⟩) := by
  have hplace : ∀ {P : Node → Prop}, P (.scalar ⟨.double, raw⟩) →
      (Node.scalar ⟨.double, raw⟩).Everywhere P := by
    intro P h
    rwa [Node.Everywhere]
  have htagged : ∀ {P : String → Prop}, (Node.scalar ⟨.double, raw⟩).Tagged P := by
    intro P tag htag
    cases htag
  rw [decode_envelope_of_names (hplace htagged),
    decodeTyped_toElement _ (hplace ⟨trivial, htagged, trivial⟩), Node.height,
    if_pos (by decide)]
  rfl

namespace Node

open Double (Nearest)
open Decimal (IsSignedPlain)

theorem double_of_isFinite {x : Double} (h : x.isFinite = true) :
    Node.double x = .ok (.scalar ⟨.double, x.render .payload⟩) :=
  if_pos h

/-- **A finite double is written as plain decimal notation that is read as the same double**, also
    from a reply that holds the node; for what is not finite there is no node. -/
theorem double_cases :
    (∀ x : Double, x.isFinite = true → ∃ s, Node.double x = .ok (.scalar s) ∧
      (∃ q, IsSignedPlain s.raw.toList x.negative q ∧ Nearest x.negative q x) ∧
      s.value = .double x ∧ s.toDouble = .ok x ∧
      Reply.decode (Reply.envelope (Node.scalar s).toWire) = .ok (.scalar s)) ∧
    (∀ x : Double, x.isFinite = false →
      Node.double x = .error (.notANumber "double" x.nonFiniteName)) := by
  refine ⟨?finite, ?other⟩
  case finite =>
    intro x hx
    have hvalue : Scalar.value ⟨.double, x.render .payload⟩ = .double x :=
      Scalar.value_double_eq_iff.2 (Double.parse?_render hx)
    refine ⟨_, double_of_isFinite hx, ⟨_, Double.isSignedPlain_render hx,
      Double.nearest_toDecimal hx⟩, hvalue, ?_, Reply.decode_envelope_double _⟩
    rw [Scalar.toDouble, hvalue]
  case other =>
    intro x hx
    rw [Node.double, if_neg (by simp [hx])]
    rfl

/-- The negative zero keeps its sign; ten to the power of 23 is no double, but it is the text of the
    one nearest to it; the last finite double is read again; and there is no node for what is not
    a number. -/
theorem double_cases_limits :
    (Node.double ⟨0x8000000000000000⟩ = .ok (.scalar ⟨.double, "-0"⟩) ∧
      Scalar.value ⟨.double, "-0"⟩ = .double ⟨0x8000000000000000⟩) ∧
    (Node.double ⟨0x44B52D02C7E14AF6⟩ =
        .ok (.scalar ⟨.double, "100000000000000000000000"⟩) ∧
      Scalar.value ⟨.double, "100000000000000000000000"⟩ = .double ⟨0x44B52D02C7E14AF6⟩) ∧
    (∃ s, Node.double ⟨0x7FEFFFFFFFFFFFFF⟩ = .ok (.scalar s) ∧
      s.toDouble = .ok ⟨0x7FEFFFFFFFFFFFFF⟩) ∧
    Node.double ⟨0x7FF8000000000000⟩ = .error (.notANumber "double" "NaN") := by
  obtain ⟨hfinite, hother⟩ := double_cases
  have hread : ∀ {x : Double} {raw : String}, x.isFinite = true → x.render .payload = raw →
      Node.double x = .ok (.scalar ⟨.double, raw⟩) ∧ Scalar.value ⟨.double, raw⟩ = .double x := by
    rintro x raw hx rfl
    obtain ⟨s, hs, -, hvalue, -⟩ := hfinite x hx
    cases (double_of_isFinite hx).symm.trans hs
    exact ⟨hs, hvalue⟩
  refine ⟨hread (by decide +kernel) (by decide +kernel),
    hread (by decide +kernel) (by decide +kernel), ?_, hother _ (by decide +kernel)⟩
  obtain ⟨s, hs, -, -, hdouble, -⟩ := hfinite ⟨0x7FEFFFFFFFFFFFFF⟩ (by decide +kernel)
  exact ⟨s, hs, hdouble⟩

end Node

end XmlRpc
