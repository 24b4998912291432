import Mathlib.Tactic.FieldSimp
import HtmlTemplate.Proofs.Number.Nearest

/-!
# Rounding gives the nearest number

The mantissa of a rounded quotient is the integer that is nearest to the quotient on a scale on which it has 53 binary
digits, or on the lowest scale. All numbers with this exponent or a greater one are integers on this scale
(`Number.RoundsAt.nearest_scaled`). The others are nearer to zero than the least mantissa of 53 digits, so they do not
matter (`Number.RoundsAt.lt_below`).

## Contents

* `roundDiv_nearest` — the nearest integer, ties to even;
* `floorLog2_spec` — the scale;
* `Number.RoundsAt` — the mantissa is the nearest integer on a scale;
* `Number.isNearest_ofQuotient` — what rounding gives.
-/

namespace HtmlTemplate

variable {num den : ℕ}

/-! ## The nearest integer -/

/-- A quotient is off the integer it is rounded to by a half at most, and by a half only if the integer is even. -/
theorem abs_roundDiv_sub (num : ℕ) (hden : 0 < den) :
    |(roundDiv num den : ℚ) - num / den| ≤ 1 / 2 ∧
      (|(roundDiv num den : ℚ) - num / den| = 1 / 2 → roundDiv num den % 2 = 0) := by
  have hpos : (0 : ℚ) < den := Nat.cast_pos.mpr hden
  obtain ⟨part, hpart⟩ : ∃ part : ℚ, part = (num % den : ℕ) / den := ⟨_, rfl⟩
  have hsplit : (num : ℚ) / den = (num / den : ℕ) + part := by
    rw [hpart, div_eq_iff hpos.ne', add_mul, div_mul_cancel₀ _ hpos.ne', mul_comm]
    exact_mod_cast (Nat.div_add_mod num den).symm
  have hnonneg : 0 ≤ part := by
    rw [hpart]
    positivity
  have hlt : part < 1 := by
    rw [hpart, div_lt_one hpos]
    exact_mod_cast Nat.mod_lt num hden
  have hless : 2 * (num % den) < den ↔ part < 1 / 2 := by
    rw [hpart, div_lt_iff₀ hpos, ← Nat.cast_lt (α := ℚ)]
    push_cast
    constructor <;> intro h <;> linarith
  have hhalf : 2 * (num % den) = den ↔ part = 1 / 2 := by
    rw [hpart, div_eq_iff hpos.ne', ← Nat.cast_inj (R := ℚ)]
    push_cast
    constructor <;> intro h <;> linarith
  rw [hsplit]
  simp only [roundDiv, hless, hhalf, Bool.or_eq_true, Bool.and_eq_true, decide_eq_true_eq]
  split
  case isTrue hdown =>
    rw [sub_add_cancel_left, abs_neg, abs_of_nonneg hnonneg]
    refine ⟨hdown.elim le_of_lt fun h => h.1.le, fun htie => ?_⟩
    exact hdown.elim (fun h => absurd htie h.ne) fun h => h.2
  case isFalse hup =>
    rw [Nat.cast_add, Nat.cast_one, add_sub_add_left_eq_sub, abs_of_pos (sub_pos.mpr hlt)]
    rw [not_or, not_lt, not_and] at hup
    refine ⟨by linarith [hup.1], fun htie => ?_⟩
    have hodd := hup.2 (by linarith)
    omega

/-- No integer is nearer to a quotient than the one it is rounded to, and if another is as near, this one is even. -/
theorem roundDiv_nearest (num : ℕ) (hden : 0 < den) {k : ℤ} (hne : k ≠ roundDiv num den) :
    |(roundDiv num den : ℚ) - num / den| ≤ |(k : ℚ) - num / den| ∧
      (|(k : ℚ) - num / den| = |(roundDiv num den : ℚ) - num / den| → roundDiv num den % 2 = 0) := by
  obtain ⟨herror, heven⟩ := abs_roundDiv_sub num hden
  have hapart : (1 : ℚ) ≤ |(k : ℚ) - roundDiv num den| := by
    exact_mod_cast Int.one_le_abs (sub_ne_zero.mpr hne)
  have htriangle : |(k : ℚ) - roundDiv num den| ≤ |(k : ℚ) - num / den| + |(roundDiv num den : ℚ) - num / den| := by
    rw [abs_sub_comm (roundDiv num den : ℚ)]
    exact abs_sub_le _ _ _
  exact ⟨by linarith, fun htie => heven (by linarith)⟩

/-! ## The scale -/

/-- A quotient of integers on a scale is one again. -/
theorem scaled_eq (num den : ℕ) (e : ℤ) :
    ((num * 2 ^ (-e).toNat : ℕ) : ℚ) / (den * 2 ^ e.toNat : ℕ) = num / den / 2 ^ e := by
  rw [Number.zpow_eq_div, Nat.cast_mul, Nat.cast_mul, div_div_div_eq]

theorem log2_bounds {n : ℕ} (h : 0 < n) : (2 : ℚ) ^ (n.log2 : ℤ) ≤ n ∧ (n : ℚ) < 2 ^ (n.log2 + 1 : ℤ) := by
  constructor
  · rw [zpow_natCast]
    exact_mod_cast Nat.log2_self_le (Nat.ne_of_gt h)
  · rw [← Nat.cast_succ, zpow_natCast]
    exact_mod_cast Nat.lt_log2_self

/-- **The order of magnitude** of a quotient. -/
theorem floorLog2_spec (hnum : 0 < num) (hden : 0 < den) :
    (2 : ℚ) ^ floorLog2 num den ≤ num / den ∧ (num : ℚ) / den < 2 ^ (floorLog2 num den + 1) := by
  have hpos : (0 : ℚ) < den := Nat.cast_pos.mpr hden
  obtain ⟨hnumLow, hnumHigh⟩ := log2_bounds hnum
  obtain ⟨hdenLow, hdenHigh⟩ := log2_bounds hden
  have hbelow : ∀ e : ℤ, num * 2 ^ (-e).toNat < den * 2 ^ e.toNat ↔ (num : ℚ) / den < 2 ^ e := by
    intro e
    rw [← Nat.cast_lt (α := ℚ), ← div_lt_one (by positivity), scaled_eq, div_lt_one (by positivity)]
  simp only [floorLog2]
  split
  case isTrue hlow =>
    rw [sub_add_cancel]
    refine ⟨?_, (hbelow _).mp hlow⟩
    rw [le_div_iff₀ hpos]
    calc (2 : ℚ) ^ ((num.log2 : ℤ) - den.log2 - 1) * den
        ≤ 2 ^ ((num.log2 : ℤ) - den.log2 - 1) * 2 ^ (den.log2 + 1 : ℤ) := by gcongr
      _ = 2 ^ (num.log2 : ℤ) := by
        rw [← zpow_add₀ two_ne_zero]
        congr 1
        omega
      _ ≤ num := hnumLow
  case isFalse hhigh =>
    refine ⟨not_lt.mp fun h => hhigh ((hbelow _).mpr h), ?_⟩
    rw [div_lt_iff₀ hpos]
    calc (num : ℚ) < 2 ^ (num.log2 + 1 : ℤ) := hnumHigh
      _ = 2 ^ ((num.log2 : ℤ) - den.log2 + 1) * 2 ^ (den.log2 : ℤ) := by
        rw [← zpow_add₀ two_ne_zero]
        congr 1
        omega
      _ ≤ 2 ^ ((num.log2 : ℤ) - den.log2 + 1) * den := by gcongr

namespace Number

/-! ## The nearest magnitude -/

/-- The magnitude of a number is `m · 2 ^ e`, where `m` is the integer that is nearest to a positive rational on this
    scale, the even one of two, and the scale is the lowest or leaves the rational 53 digits. -/
structure RoundsAt (x : Number) (q : ℚ) (e : ℤ) (m : ℕ) : Prop where
  abs_eq : |x.value| = m * 2 ^ e
  parity : x.mantissa % 2 = m % 2
  nearest : ∀ k : ℤ, k ≠ m → |(m : ℚ) - q / 2 ^ e| ≤ |(k : ℚ) - q / 2 ^ e| ∧
    (|(k : ℚ) - q / 2 ^ e| = |(m : ℚ) - q / 2 ^ e| → m % 2 = 0)
  lowest : -1074 < e → 2 ^ (e + 52) ≤ q

theorem abs_scaled_sub (a q : ℚ) (e : ℤ) : |a * 2 ^ e - q| = |a - q / 2 ^ e| * 2 ^ e := by
  have hpos : (0 : ℚ) < 2 ^ e := by positivity
  rw [← abs_of_pos hpos, ← abs_mul, abs_of_pos hpos, sub_mul, div_mul_cancel₀ _ hpos.ne']

theorem exponent_ge (x : Number) : -1074 ≤ x.exponent := by
  unfold exponent
  omega

namespace RoundsAt

variable {x : Number} {q : ℚ} {e : ℤ} {m : ℕ}

/-- A magnitude on the scale. -/
theorem nearest_scaled (h : x.RoundsAt q e m) (k : ℕ) :
    |(|x.value|) - q| ≤ |k * 2 ^ e - q| ∧
      ((k : ℚ) * 2 ^ e ≠ |x.value| → |k * 2 ^ e - q| = |(|x.value|) - q| → x.mantissa % 2 = 0) := by
  have hpos : (0 : ℚ) < 2 ^ e := by positivity
  rw [h.abs_eq, h.parity, abs_scaled_sub, abs_scaled_sub]
  by_cases hk : k = m
  · subst hk
    exact ⟨le_rfl, fun hne => absurd rfl hne⟩
  · obtain ⟨hle, heven⟩ := h.nearest k (by exact_mod_cast hk)
    rw [Int.cast_natCast] at hle heven
    exact ⟨by gcongr, fun _ htie => heven (mul_right_cancel₀ hpos.ne' htie)⟩

/-- A magnitude below the scale is too near to zero. -/
theorem lt_below (h : x.RoundsAt q e m) {y : Number} (hy : y.exponent < e) :
    |(|x.value|) - q| < |(|y.value|) - q| := by
  have hlead : (2 : ℚ) ^ (e + 52) = (2 ^ 52 : ℕ) * 2 ^ e := by
    rw [zpow_add₀ two_ne_zero, mul_comm]
    norm_cast
  have hq : (2 ^ 52 : ℕ) * (2 : ℚ) ^ e ≤ q := by
    rw [← hlead]
    exact h.lowest (lt_of_le_of_lt y.exponent_ge hy)
  have hsmall : |y.value| < (2 ^ 52 : ℕ) * 2 ^ e := by
    rw [abs_value, mul_zpow_eq (2 ^ 52) hy.le]
    refine mul_lt_mul_of_pos_right (Nat.cast_lt.mpr ?_) (by positivity)
    have htwo : 2 ≤ 2 ^ (e - y.exponent).toNat := Nat.le_self_pow (by omega) 2
    exact lt_of_lt_of_le y.mantissa_lt (Nat.mul_le_mul_left (2 ^ 52) htwo)
  calc |(|x.value|) - q| ≤ |((2 ^ 52 : ℕ) : ℚ) * 2 ^ e - q| := (h.nearest_scaled (2 ^ 52)).1
    _ = q - (2 ^ 52 : ℕ) * 2 ^ e := by rw [abs_sub_comm, abs_of_nonneg (sub_nonneg.mpr hq)]
    _ < q - |y.value| := sub_lt_sub_left hsmall q
    _ ≤ |(|y.value|) - q| := by
      rw [abs_sub_comm]
      exact le_abs_self _

/-- **The nearest integer on the scale is the nearest magnitude.** -/
theorem isNearestMagnitude (h : x.RoundsAt q e m) : x.IsNearestMagnitude q := by
  intro y
  by_cases hy : e ≤ y.exponent
  · rw [abs_value y, mul_zpow_eq y.mantissa hy]
    exact h.nearest_scaled _
  · have hlt := h.lt_below (not_le.mp hy)
    exact ⟨hlt.le, fun _ htie => absurd htie hlt.ne'⟩

end RoundsAt

/-! ## Rounding -/

/-- The mantissa of a quotient below `2 ^ (e + 53)` has 54 digits at most, and one that is not below `2 ^ (e + 52)`
    has 53 at least. -/
theorem roundDiv_scaled_bounds (hden : 0 < den) (e : ℤ) :
    ((num : ℚ) / den < 2 ^ (e + 53) → roundDiv (num * 2 ^ (-e).toNat) (den * 2 ^ e.toNat) ≤ 2 ^ 53) ∧
      (2 ^ (e + 52) ≤ (num : ℚ) / den → 2 ^ 52 ≤ roundDiv (num * 2 ^ (-e).toNat) (den * 2 ^ e.toNat)) := by
  have hpos : (0 : ℚ) < 2 ^ e := by positivity
  obtain ⟨herror, -⟩ := abs_roundDiv_sub (num * 2 ^ (-e).toNat) (Nat.mul_pos hden (Nat.two_pow_pos e.toNat))
  rw [scaled_eq, abs_le] at herror
  generalize roundDiv (num * 2 ^ (-e).toNat) (den * 2 ^ e.toNat) = m at herror
  constructor
  · intro hlt
    have hscaled : (num : ℚ) / den / 2 ^ e < 2 ^ 53 := by
      rwa [div_lt_iff₀ hpos, mul_comm, ← zpow_natCast, ← zpow_add₀ two_ne_zero]
    have hm : (m : ℚ) < (2 ^ 53 + 1 : ℕ) := by
      push_cast
      linarith
    exact Nat.lt_succ_iff.mp (Nat.cast_lt.mp hm)
  · intro hle
    have hscaled : (2 : ℚ) ^ 52 ≤ num / den / 2 ^ e := by
      rwa [le_div_iff₀ hpos, mul_comm, ← zpow_natCast, ← zpow_add₀ two_ne_zero]
    have hm : ((2 ^ 52 : ℕ) : ℚ) < (m + 1 : ℕ) := by
      push_cast
      linarith
    exact Nat.lt_succ_iff.mp (Nat.cast_lt.mp hm)

/-- The exponent and the mantissa that a quotient is rounded with. -/
theorem roundsAt_ofQuotient (negative : Bool) (hnum : 0 < num) (hden : 0 < den)
    (hlt : (num : ℚ) / den < 2 ^ (1023 : ℤ)) :
    (ofQuotient negative num den).isFinite = true ∧ (ofQuotient negative num den).negative = negative ∧
      ∃ e m, (ofQuotient negative num den).RoundsAt (num / den) e m := by
  obtain ⟨hlow, hhigh⟩ := floorLog2_spec hnum hden
  have hlog : floorLog2 num den < 1023 := (zpow_lt_zpow_iff_right₀ one_lt_two).mp (hlow.trans_lt hlt)
  obtain ⟨e, he⟩ : ∃ e, e = max (-1074) (floorLog2 num den - 52) := ⟨_, rfl⟩
  obtain ⟨m, hm⟩ : ∃ m, m = roundDiv (num * 2 ^ (-e).toNat) (den * 2 ^ e.toNat) := ⟨_, rfl⟩
  have hlowest : -1074 < e → 2 ^ (e + 52) ≤ (num : ℚ) / den := by
    intro h
    rwa [show e + 52 = floorLog2 num den by omega]
  have hle : m ≤ 2 ^ 53 := by
    rw [hm]
    exact (roundDiv_scaled_bounds hden e).1 (hhigh.trans_le (zpow_le_zpow_right₀ one_le_two (by omega)))
  have hlead : 0 < (e + 1074).toNat → 2 ^ 52 ≤ m := by
    intro h
    rw [hm]
    exact (roundDiv_scaled_bounds hden e).2 (hlowest (by omega))
  have hmagnitude : (e + 1074).toNat * 2 ^ 52 + m < infiniteMagnitude := by
    unfold infiniteMagnitude maxExponentField
    omega
  have hquotient : ofQuotient negative num den = ofMagnitude negative ((e + 1074).toNat * 2 ^ 52 + m) := by
    simp only [ofQuotient, magnitudeOfQuotient, if_neg (Nat.ne_of_gt hnum), ← he, ← hm]
    rw [Nat.min_eq_right hmagnitude.le]
  rw [hquotient]
  refine ⟨isFinite_ofMagnitude hmagnitude, negative_ofMagnitude (lt_of_lt_infiniteMagnitude hmagnitude), e, m,
    ?_, ?_, ?_, hlowest⟩
  · rw [abs_value_ofMagnitude hle hlead hmagnitude, show ((e + 1074).toNat : ℤ) - 1074 = e by omega]
  · exact mantissa_mod_two_ofMagnitude hle hlead hmagnitude
  · intro k hne
    rw [hm] at hne ⊢
    have hnearest := roundDiv_nearest _ (Nat.mul_pos hden (Nat.two_pow_pos e.toNat)) hne
    rwa [scaled_eq] at hnearest

/-- **A quotient is rounded to the nearest number.** -/
theorem isNearest_ofQuotient (negative : Bool) (hden : 0 < den)
    (hlt : (num : ℚ) / den < 2 ^ (1023 : ℤ)) :
    (ofQuotient negative num den).IsNearest (if negative then -(num / den) else num / den) := by
  cases Nat.eq_zero_or_pos num with
  | inl hzero =>
    subst hzero
    have hzero : ofQuotient negative 0 den = ofMagnitude negative (0 * 2 ^ 52 + 0) := rfl
    rw [hzero, Nat.cast_zero, zero_div, neg_zero, ite_self]
    refine IsNearest.of_value_eq (isFinite_ofMagnitude (by decide)) (abs_eq_zero.mp ?_)
    rw [abs_value_ofMagnitude (by decide) (by decide) (by decide), Nat.cast_zero, zero_mul]
  | inr hnum =>
    obtain ⟨hfinite, hnegative, e, m, h⟩ := roundsAt_ofQuotient negative hnum hden hlt
    have hq : (0 : ℚ) < num / den := by positivity
    have hnearest := IsNearest.of_magnitude hfinite hq h.isNearestMagnitude
    rwa [hnegative] at hnearest

end Number

end HtmlTemplate
