import Mathlib.Algebra.Order.Field.Basic
import HtmlTemplate.Proofs.Number.Value

/-!
# The nearest number

A rational has a nearest number as long as it is not beyond all of them. Where two numbers are equally near, the nearest
is the one with the even mantissa. That can be one of them only: between two numbers with even mantissas there is
another, which would be nearer still (`Number.IsNearest.unique`).

## Contents

* `Number.IsNearest` — the nearest number, ties to even;
* `Number.IsNearest.value_eq`, `Number.IsNearest.value_le` — numbers are their own nearest, and the order is kept;
* `Number.IsNearest.of_magnitude` — nearest magnitudes give nearest numbers;
* `Number.IsNearest.unique` — there is only one.
-/

namespace HtmlTemplate

namespace Number

/-! ## The nearest number -/

/-- The number is finite, no other is nearer to the rational, and if another is as near, this one has the even
    mantissa. -/
structure IsNearest (x : Number) (q : ℚ) : Prop where
  finite : x.isFinite = true
  le : ∀ y : Number, y.isFinite = true → |x.value - q| ≤ |y.value - q|
  even : ∀ y : Number, y.isFinite = true → y.value ≠ x.value → |y.value - q| = |x.value - q| → x.mantissa % 2 = 0

/-- No magnitude is nearer to the positive rational, and if another is as near, the mantissa is even. -/
def IsNearestMagnitude (x : Number) (q : ℚ) : Prop :=
  ∀ y : Number, |(|x.value|) - q| ≤ |(|y.value|) - q| ∧
    (|y.value| ≠ |x.value| → |(|y.value|) - q| = |(|x.value|) - q| → x.mantissa % 2 = 0)

/-- The greater of two is the nearer one only if the middle is not beyond. -/
theorem add_le_two_mul {a b t : ℚ} (hlt : a < b) (h : |b - t| ≤ |a - t|) : a + b ≤ 2 * t := by
  by_contra hmid
  have hnear : |a - t| < b - t := abs_lt.mpr ⟨by linarith, by linarith⟩
  exact absurd (le_abs_self (b - t)) (not_le.mpr (h.trans_lt hnear))

/-- The lesser of two is the nearer one only if it is not beyond the middle. -/
theorem two_mul_le_add {a b t : ℚ} (hlt : a < b) (h : |a - t| ≤ |b - t|) : 2 * t ≤ a + b := by
  by_contra hmid
  have hnear : |b - t| < t - a := abs_lt.mpr ⟨by linarith, by linarith⟩
  have hfar : t - a ≤ |a - t| := by
    rw [abs_sub_comm]
    exact le_abs_self _
  exact absurd hfar (not_le.mpr (h.trans_lt hnear))

namespace IsNearest

variable {x y : Number} {p q : ℚ}

theorem of_value_eq (hfinite : x.isFinite = true) (h : x.value = q) : x.IsNearest q := by
  have hzero : |x.value - q| = 0 := by rw [h, sub_self, abs_zero]
  refine ⟨hfinite, fun y _ => hzero.trans_le (abs_nonneg _), fun y _ hne htie => ?_⟩
  rw [hzero, abs_eq_zero, sub_eq_zero] at htie
  exact absurd (htie.trans h.symm) hne

/-- A rational that is a number is rounded to it. -/
theorem value_eq (h : x.IsNearest q) (hy : y.isFinite = true) (hq : y.value = q) : x.value = q := by
  have hle := h.le y hy
  rw [hq, sub_self, abs_zero] at hle
  exact sub_eq_zero.mp (abs_nonpos_iff.mp hle)

/-- **Rounding keeps the order.** -/
theorem value_le (hx : x.IsNearest p) (hy : y.IsNearest q) (h : p < q) : x.value ≤ y.value := by
  by_contra hlt
  rw [not_le] at hlt
  -- The middle between the two would not be above the first rational, and not below the second.
  have hp := add_le_two_mul hlt (hx.le y hy.finite)
  have hq := two_mul_le_add hlt (hy.le x hx.finite)
  linarith

/-- The nearest magnitude is the nearest number if the signs agree: a number of the other sign is farther away. -/
theorem of_magnitude (hfinite : x.isFinite = true) (hq : 0 < q) (hnearest : x.IsNearestMagnitude q) :
    x.IsNearest (if x.negative then -q else q) := by
  obtain ⟨r, hr⟩ : ∃ r, r = if x.negative then -q else q := ⟨_, rfl⟩
  have habs : |r| = q := by
    rw [hr]
    split
    · rw [abs_neg, abs_of_pos hq]
    · exact abs_of_pos hq
  have hself : |x.value - r| = |(|x.value|) - q| := by
    rw [hr]
    cases hsign : x.negative with
    | true => rw [if_pos rfl, abs_of_nonpos (value_nonpos hsign), abs_sub_comm, neg_sub_comm]
    | false => rw [if_neg Bool.false_ne_true, abs_of_nonneg (value_nonneg hsign)]
  have hother : ∀ y : Number, |(|y.value|) - q| ≤ |y.value - r| := fun y => by
    rw [← habs]
    exact abs_abs_sub_abs_le_abs_sub _ _
  rw [← hr]
  refine ⟨hfinite, fun y _ => hself.le.trans ((hnearest y).1.trans (hother y)), fun y _ hne htie => ?_⟩
  by_cases hmagnitude : |y.value| = |x.value|
  · -- The number of the other sign would be as near only if it or the rational were zero.
    have hopposite : y.value = -x.value := (abs_eq_abs.mp hmagnitude).resolve_left hne
    rw [hopposite] at htie hne
    exfalso
    cases abs_eq_abs.mp htie with
    | inl hzero => exact hne (by linarith)
    | inr hzero =>
      have hr0 : r = 0 := by linarith
      rw [hr0, abs_zero] at habs
      exact hq.ne habs
  · exact (hnearest y).2 hmagnitude (le_antisymm ((hother y).trans_eq (htie.trans hself)) (hnearest y).1)

end IsNearest

/-! ## There is only one -/

theorem magnitude_mod_two (x : Number) : x.magnitude % 2 = x.mantissa % 2 := by
  rw [magnitude_eq, mantissa]
  split <;> omega

/-- Between two magnitudes with even mantissas there is another. -/
theorem exists_between {x y : Number} (negative : Bool) (hy : y.isFinite = true) (hxeven : x.mantissa % 2 = 0)
    (hyeven : y.mantissa % 2 = 0) (h : |x.value| < |y.value|) :
    ∃ z : Number, z.isFinite = true ∧ z.negative = negative ∧ |x.value| < |z.value| ∧ |z.value| < |y.value| := by
  have hlt : x.magnitude + 1 < y.magnitude := by
    have hless := abs_value_lt_iff.mp h
    rw [← magnitude_mod_two] at hxeven hyeven
    omega
  have hfinite : x.magnitude + 1 < infiniteMagnitude := hlt.trans (isFinite_iff.mp hy)
  have hbits : x.magnitude + 1 < 2 ^ 63 := lt_of_lt_infiniteMagnitude hfinite
  refine ⟨ofMagnitude negative (x.magnitude + 1), isFinite_ofMagnitude hfinite, negative_ofMagnitude hbits, ?_, ?_⟩
  · exact abs_value_lt (by rw [magnitude_ofMagnitude hbits]; omega)
  · exact abs_value_lt (by rwa [magnitude_ofMagnitude hbits])

/-- Between two numbers with even mantissas there is another. -/
theorem exists_value_between {x y : Number} (hx : x.isFinite = true) (hy : y.isFinite = true)
    (hxeven : x.mantissa % 2 = 0) (hyeven : y.mantissa % 2 = 0) (h : x.value < y.value) :
    ∃ z : Number, z.isFinite = true ∧ x.value < z.value ∧ z.value < y.value := by
  rcases le_or_gt 0 x.value with hnonneg | hneg
  · obtain ⟨z, hz, hsign, hlow, hhigh⟩ := exists_between false hy hxeven hyeven
      (by rwa [abs_of_nonneg hnonneg, abs_of_nonneg (hnonneg.trans h.le)])
    rw [abs_of_nonneg (value_nonneg hsign)] at hlow hhigh
    rw [abs_of_nonneg hnonneg] at hlow
    rw [abs_of_nonneg (hnonneg.trans h.le)] at hhigh
    exact ⟨z, hz, hlow, hhigh⟩
  · rcases le_or_gt y.value 0 with hnonpos | hpos
    · obtain ⟨z, hz, hsign, hlow, hhigh⟩ := exists_between true hx hyeven hxeven
        (by rwa [abs_of_nonpos hnonpos, abs_of_neg hneg, neg_lt_neg_iff])
      rw [abs_of_nonpos (value_nonpos hsign)] at hlow hhigh
      rw [abs_of_nonpos hnonpos, neg_lt_neg_iff] at hlow
      rw [abs_of_neg hneg, neg_lt_neg_iff] at hhigh
      exact ⟨z, hz, hhigh, hlow⟩
    · exact ⟨zero, rfl, by rwa [value_zero], by rwa [value_zero]⟩

namespace IsNearest

variable {x y : Number} {q : ℚ}

/-- Of two numbers at the same distance, both with the even mantissa, the lesser is farther than one between them. -/
theorem not_value_lt (hx : x.IsNearest q) (hy : y.IsNearest q) : ¬ x.value < y.value := by
  intro hlt
  have htie : |x.value - q| = |y.value - q| := le_antisymm (hx.le y hy.finite) (hy.le x hx.finite)
  obtain ⟨z, hz, hlow, hhigh⟩ := exists_value_between hx.finite hy.finite
    (hx.even y hy.finite hlt.ne' htie.symm) (hy.even x hx.finite hlt.ne htie) hlt
  have hxz := two_mul_le_add hlow (hx.le z hz)
  have hzy := add_le_two_mul hhigh (hy.le z hz)
  linarith

/-- **The nearest number is known by its value.** -/
theorem unique (hx : x.IsNearest q) (hy : y.IsNearest q) : x.value = y.value :=
  le_antisymm (le_of_not_gt (hy.not_value_lt hx)) (le_of_not_gt (hx.not_value_lt hy))

end IsNearest

end Number

end HtmlTemplate
