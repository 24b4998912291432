import Mathlib.Algebra.Order.Field.Power
import Mathlib.Data.Rat.Cast.Order
import Mathlib.Tactic.Linarith
import HtmlTemplate.Number.Scale
import HtmlTemplate.Proofs.Value.Equality

/-!
# Numbers as rationals

A finite number is a dyadic rational, `± mantissa · 2 ^ exponent`. The order of the magnitudes is that of the bits, as
the exponent stands in front of the fraction (`Number.abs_value_lt_iff`), so a rational is at most one number, but for the
two zeros (`Number.equal_of_value_eq`).

## Contents

* `Number.value` — the rational that the bits of a finite number stand for;
* `Number.IsInteger` — the number is an integer;
* `Number.abs_value_lt_iff`, `Number.equal_of_value_eq` — the order and the equality of the rationals;
* `Number.mantissa_exponent_ofMagnitude` — the fields of a number that is put together;
* `Number.isInt_iff`, `Number.IsInteger.display_eq` — what is done with the bits of an integer.
-/

namespace HtmlTemplate

namespace Number

variable {x y : Number}

/-- The rational that the bits of a finite number stand for. -/
def value (x : Number) : ℚ := (if x.negative then -1 else 1) * (x.mantissa * 2 ^ x.exponent)

/-- The number is finite and the integer. -/
structure IsInteger (x : Number) (n : ℤ) : Prop where
  finite : x.isFinite = true
  value_eq : x.value = n

/-! ## Powers of two -/

/-- A multiple of a power of two is a multiple of every smaller power. -/
theorem mul_zpow_eq (m : ℕ) {e f : ℤ} (h : f ≤ e) :
    (m : ℚ) * 2 ^ e = (m * 2 ^ (e - f).toNat : ℕ) * 2 ^ f := by
  have hpower : (2 : ℚ) ^ e = 2 ^ (e - f).toNat * 2 ^ f := by
    rw [← zpow_natCast, ← zpow_add₀ two_ne_zero, Int.toNat_of_nonneg (Int.sub_nonneg.mpr h), sub_add_cancel]
  rw [hpower, Nat.cast_mul, Nat.cast_pow, Nat.cast_ofNat, mul_assoc]

/-- The two natural powers that a power of two is the quotient of. -/
theorem zpow_eq_div (e : ℤ) : (2 : ℚ) ^ e = (2 ^ e.toNat : ℕ) / (2 ^ (-e).toNat : ℕ) := by
  have hsplit : e = (e.toNat : ℤ) - ((-e).toNat : ℤ) := by omega
  conv_lhs => rw [hsplit, zpow_sub₀ two_ne_zero, zpow_natCast, zpow_natCast]
  push_cast
  rfl

/-! ## The order of the magnitudes -/

theorem mantissa_lt (x : Number) : x.mantissa < 2 ^ 53 := by
  have h : x.fraction < 2 ^ 52 := Nat.mod_lt _ (by decide)
  unfold mantissa
  split <;> omega

theorem le_mantissa (h : 0 < x.exponentField) : 2 ^ 52 ≤ x.mantissa := by
  rw [mantissa, if_neg (Nat.ne_of_gt h)]
  exact Nat.le_add_left _ _

theorem magnitude_eq (x : Number) : x.magnitude = x.exponentField * 2 ^ 52 + x.fraction :=
  (Nat.div_add_mod' _ _).symm

theorem abs_value (x : Number) : |x.value| = x.mantissa * 2 ^ x.exponent := by
  have hsign : |(if x.negative then -1 else 1 : ℚ)| = 1 := by split <;> simp
  rw [value, abs_mul, hsign, one_mul, abs_of_nonneg (by positivity)]

theorem abs_value_lt (h : x.magnitude < y.magnitude) : |x.value| < |y.value| := by
  rw [magnitude_eq, magnitude_eq] at h
  have hx : x.fraction < 2 ^ 52 := Nat.mod_lt _ (by decide)
  have hy : y.fraction < 2 ^ 52 := Nat.mod_lt _ (by decide)
  have hfields : x.exponentField ≤ y.exponentField := by omega
  have hexponents : x.exponent ≤ y.exponent := by
    unfold exponent
    omega
  rw [abs_value, abs_value, mul_zpow_eq _ hexponents]
  refine mul_lt_mul_of_pos_right (Nat.cast_lt.mpr ?_) (by positivity)
  cases Nat.eq_zero_or_pos (y.exponent - x.exponent).toNat with
  | inl hsame =>
    -- At the same exponent the leading bit can only be missing below.
    rw [hsame, pow_zero, mul_one]
    unfold exponent at hsame
    unfold mantissa
    split <;> split <;> omega
  | inr hmore =>
    have htwo : 2 ≤ 2 ^ (y.exponent - x.exponent).toNat := Nat.le_self_pow (Nat.ne_of_gt hmore) 2
    have hlead : 2 ^ 52 ≤ y.mantissa := by
      apply le_mantissa
      unfold exponent at hmore
      omega
    calc x.mantissa < 2 ^ 52 * 2 := x.mantissa_lt
      _ ≤ y.mantissa * 2 ^ (y.exponent - x.exponent).toNat := Nat.mul_le_mul hlead htwo

theorem abs_value_eq_of_magnitude_eq (h : x.magnitude = y.magnitude) : |x.value| = |y.value| := by
  rw [abs_value, abs_value, mantissa, mantissa, exponent, exponent, fraction, fraction, exponentField, exponentField, h]

/-- **Magnitudes are ordered like their bits.** -/
theorem abs_value_lt_iff : |x.value| < |y.value| ↔ x.magnitude < y.magnitude := by
  refine ⟨fun h => ?_, abs_value_lt⟩
  by_contra hle
  cases (not_lt.mp hle).lt_or_eq with
  | inl hgt => exact absurd (abs_value_lt hgt) h.le.not_gt
  | inr heq => exact absurd (abs_value_eq_of_magnitude_eq heq.symm) h.ne

theorem magnitude_eq_of_abs_value_eq (h : |x.value| = |y.value|) : x.magnitude = y.magnitude :=
  le_antisymm (not_lt.mp fun hlt => (abs_value_lt hlt).ne' h) (not_lt.mp fun hlt => (abs_value_lt hlt).ne h)

theorem value_zero : zero.value = 0 := by
  rw [value, show zero.mantissa = 0 from rfl, Nat.cast_zero, zero_mul, mul_zero]

theorem magnitude_eq_zero_of_value_eq_zero (h : x.value = 0) : x.magnitude = 0 :=
  magnitude_eq_of_abs_value_eq (congrArg abs (h.trans value_zero.symm))

theorem isFinite_iff : x.isFinite = true ↔ x.magnitude < infiniteMagnitude := by
  rw [isFinite, decide_eq_true_eq, exponentField]
  unfold infiniteMagnitude maxExponentField
  omega

theorem isNaN_of_isFinite (h : x.isFinite = true) : x.isNaN = false := by
  rw [isFinite, decide_eq_true_eq] at h
  rw [isNaN, decide_eq_false (Nat.ne_of_lt h), Bool.false_and]

theorem negative_iff (x : Number) : x.negative = true ↔ 2 ^ 63 ≤ x.bits.toNat := by
  rw [negative, decide_eq_true_eq]

/-- The bits of a number are its sign and its magnitude. -/
theorem ext_negative_magnitude (hsign : x.negative = y.negative) (h : x.magnitude = y.magnitude) : x = y := by
  have hbits : x.bits.toNat = y.bits.toNat := by
    have hx := x.bits.toNat_lt
    have hy := y.bits.toNat_lt
    have hiff : 2 ^ 63 ≤ x.bits.toNat ↔ 2 ^ 63 ≤ y.bits.toNat := by
      rw [← negative_iff, ← negative_iff, hsign]
    unfold magnitude at h
    omega
  cases x
  cases y
  exact congrArg mk (UInt64.toNat_inj.mp hbits)

theorem value_nonneg (h : x.negative = false) : 0 ≤ x.value := by
  rw [value, h, if_neg Bool.false_ne_true, one_mul]
  positivity

theorem value_nonpos (h : x.negative = true) : x.value ≤ 0 := by
  rw [value, h, if_pos rfl, neg_one_mul, neg_nonpos]
  positivity

/-- **Numbers of the same value are equal.** -/
theorem equal_of_value_eq (hx : x.isFinite = true) (hy : y.isFinite = true) (h : x.value = y.value) :
    x.equal y = true := by
  refine equal_iff.mpr ⟨isNaN_of_isFinite hx, isNaN_of_isFinite hy, ?_⟩
  have hmagnitude : x.magnitude = y.magnitude := magnitude_eq_of_abs_value_eq (congrArg abs h)
  -- Of different signs, the value is neither above zero nor below it.
  have hzero (hvalue : x.value = 0) : x.magnitude = 0 ∧ y.magnitude = 0 :=
    ⟨magnitude_eq_zero_of_value_eq_zero hvalue, magnitude_eq_zero_of_value_eq_zero (h.symm.trans hvalue)⟩
  cases hxsign : x.negative <;> cases hysign : y.negative
  · exact .inl (ext_negative_magnitude (hxsign.trans hysign.symm) hmagnitude)
  · exact .inr (hzero (le_antisymm (h.le.trans (value_nonpos hysign)) (value_nonneg hxsign)))
  · exact .inr (hzero (le_antisymm (value_nonpos hxsign) ((value_nonneg hysign).trans h.ge)))
  · exact .inl (ext_negative_magnitude (hxsign.trans hysign.symm) hmagnitude)

/-! ## A number that is put together -/

section Fields

variable {negative : Bool} {magnitude : ℕ}

theorem bits_ofMagnitude (h : magnitude < 2 ^ 63) :
    (ofMagnitude negative magnitude).bits.toNat = magnitude + if negative then 2 ^ 63 else 0 := by
  rw [ofMagnitude, UInt64.toNat_ofNat']
  apply Nat.mod_eq_of_lt
  split <;> omega

theorem negative_ofMagnitude (h : magnitude < 2 ^ 63) : (ofMagnitude negative magnitude).negative = negative := by
  rw [Bool.eq_iff_iff, negative_iff, bits_ofMagnitude h]
  cases negative
  · simpa using h
  · simp

theorem magnitude_ofMagnitude (h : magnitude < 2 ^ 63) : (ofMagnitude negative magnitude).magnitude = magnitude := by
  rw [Number.magnitude, bits_ofMagnitude h]
  split <;> omega

theorem lt_of_lt_infiniteMagnitude (h : magnitude < infiniteMagnitude) : magnitude < 2 ^ 63 := by
  unfold infiniteMagnitude maxExponentField at h
  omega

theorem isFinite_ofMagnitude (h : magnitude < infiniteMagnitude) :
    (ofMagnitude negative magnitude).isFinite = true := by
  rwa [isFinite_iff, magnitude_ofMagnitude (lt_of_lt_infiniteMagnitude h)]

/-- The fields of a mantissa added to an exponent in front. A mantissa of 54 digits has carried into the exponent. -/
theorem mantissa_exponent_ofMagnitude (negative : Bool) {e m : ℕ} (hm : m ≤ 2 ^ 53) (hlead : 0 < e → 2 ^ 52 ≤ m)
    (h : e * 2 ^ 52 + m < infiniteMagnitude) :
    ((ofMagnitude negative (e * 2 ^ 52 + m)).mantissa = m ∧
        (ofMagnitude negative (e * 2 ^ 52 + m)).exponent = e - 1074) ∨
      (m = 2 ^ 53 ∧ (ofMagnitude negative (e * 2 ^ 52 + m)).mantissa = 2 ^ 52 ∧
        (ofMagnitude negative (e * 2 ^ 52 + m)).exponent = e - 1073) := by
  unfold infiniteMagnitude maxExponentField at h
  unfold mantissa exponent fraction exponentField
  rw [magnitude_ofMagnitude (by omega)]
  split <;> omega

theorem abs_value_ofMagnitude {e m : ℕ} (hm : m ≤ 2 ^ 53) (hlead : 0 < e → 2 ^ 52 ≤ m)
    (h : e * 2 ^ 52 + m < infiniteMagnitude) :
    |(ofMagnitude negative (e * 2 ^ 52 + m)).value| = m * 2 ^ (e - 1074 : ℤ) := by
  rw [abs_value]
  rcases mantissa_exponent_ofMagnitude negative hm hlead h with
    ⟨hmantissa, hexponent⟩ | ⟨rfl, hmantissa, hexponent⟩
  · rw [hmantissa, hexponent]
  · rw [hmantissa, hexponent, mul_zpow_eq (2 ^ 52) (by omega : (e - 1074 : ℤ) ≤ e - 1073),
      show ((e : ℤ) - 1073 - (e - 1074)).toNat = 1 by omega, ← pow_add]

theorem mantissa_mod_two_ofMagnitude {e m : ℕ} (hm : m ≤ 2 ^ 53) (hlead : 0 < e → 2 ^ 52 ≤ m)
    (h : e * 2 ^ 52 + m < infiniteMagnitude) :
    (ofMagnitude negative (e * 2 ^ 52 + m)).mantissa % 2 = m % 2 := by
  rcases mantissa_exponent_ofMagnitude negative hm hlead h with
    ⟨hmantissa, -⟩ | ⟨rfl, hmantissa, -⟩
  · rw [hmantissa]
  · rw [hmantissa]
    rfl

end Fields

/-! ## Integers -/

theorem abs_value_eq_div (x : Number) : |x.value| = x.numerator / x.denominator := by
  rw [abs_value, zpow_eq_div, numerator, denominator, Nat.cast_mul, mul_div_assoc]

theorem denominator_pos (x : Number) : 0 < x.denominator := Nat.two_pow_pos _

/-- Only one of the two powers of two is not one. -/
theorem denominator_dvd_numerator : x.denominator ∣ x.numerator ↔ x.denominator ∣ x.mantissa := by
  unfold numerator denominator
  by_cases h : 0 ≤ x.exponent
  · rw [show (-x.exponent).toNat = 0 by omega]
    simp
  · rw [show x.exponent.toNat = 0 by omega]
    simp

theorem numerator_eq_mul {k : ℕ} : |x.value| = k ↔ x.numerator = k * x.denominator := by
  rw [abs_value_eq_div, div_eq_iff (Nat.cast_ne_zero.mpr (Nat.ne_of_gt x.denominator_pos))]
  exact_mod_cast Iff.rfl

/-- **A number has no fractional part if it is finite and an integer.** -/
theorem isInt_iff : x.isInt = true ↔ ∃ n, x.IsInteger n := by
  rw [isInt, Bool.and_eq_true, decide_eq_true_eq, ← Nat.dvd_iff_mod_eq_zero, ← denominator,
    ← denominator_dvd_numerator]
  constructor
  · rintro ⟨hfinite, k, hk⟩
    have habs : |x.value| = k := numerator_eq_mul.mpr (hk.trans (Nat.mul_comm _ _))
    cases (abs_eq (Nat.cast_nonneg k)).mp habs with
    | inl hvalue => exact ⟨k, hfinite, by rw [hvalue, Int.cast_natCast]⟩
    | inr hvalue => exact ⟨-k, hfinite, by rw [hvalue, Int.cast_neg, Int.cast_natCast]⟩
  · rintro ⟨n, hfinite, hvalue⟩
    have habs : |x.value| = n.natAbs := by rw [hvalue, Nat.cast_natAbs, Int.cast_abs]
    exact ⟨hfinite, Dvd.intro_left _ (numerator_eq_mul.mp habs).symm⟩

namespace IsInteger

variable {m n : ℤ}

theorem isInt (h : x.IsInteger n) : x.isInt = true := isInt_iff.mpr ⟨n, h⟩

/-- Nothing is cut off from an integer. -/
theorem truncated_eq (h : x.IsInteger n) : x.truncated = n.natAbs := by
  have habs : |x.value| = n.natAbs := by rw [h.value_eq, Nat.cast_natAbs, Int.cast_abs]
  show x.numerator / x.denominator = _
  rw [numerator_eq_mul.mp habs, Nat.mul_div_cancel _ x.denominator_pos]

theorem signed_truncated_eq (h : x.IsInteger n) :
    (if x.negative then -(x.truncated : ℤ) else x.truncated) = n := by
  rw [h.truncated_eq]
  cases hsign : x.negative with
  | true =>
    have hn : n ≤ 0 := by exact_mod_cast h.value_eq ▸ value_nonpos hsign
    rw [if_pos rfl]
    omega
  | false =>
    have hn : 0 ≤ n := by exact_mod_cast h.value_eq ▸ value_nonneg hsign
    rw [if_neg Bool.false_ne_true]
    omega

/-- **The cast to 64 bits keeps every integer in their range.** -/
theorem toInt64_eq (h : x.IsInteger n) (hmin : -2 ^ 63 ≤ n) (hmax : n < 2 ^ 63) : x.toInt64.toInt = n := by
  rw [toInt64, isNaN_of_isFinite h.finite, if_neg Bool.false_ne_true, h.signed_truncated_eq]
  exact Int64.toInt_ofIntClamp hmin (by rw [Int64.toInt_maxValue]; omega)

/-- **Below the limit an integer is written as its numeral.** -/
theorem display_eq (h : x.IsInteger n) (hlimit : |n| < 2 ^ 53) : x.display = toString n := by
  have hbounds := abs_lt.mp hlimit
  have hsmall : x.truncated < integerLimit := by
    rw [h.truncated_eq, integerLimit]
    omega
  rw [display, h.isInt, Bool.true_and, if_pos (decide_eq_true hsmall)]
  show toString x.toInt64.toInt = _
  rw [h.toInt64_eq (by omega) (by omega)]

end IsInteger

end Number

end HtmlTemplate
