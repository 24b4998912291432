import HtmlTemplate.Proofs.Number.Rounding
import HtmlTemplate.Proofs.Text.Numeral

/-!
# Integers as numbers

An integer of magnitude up to `2 ^ 53` is a number (`Number.exists_isInteger`), so the nearest number is the integer
itself. Below this limit it is written as its numeral, and as no two integers have the same numeral, numbers that are
written alike are equal. Beyond the limit integers are rounded, which keeps their order.

## Contents

* `IntegerType` — the integer types that numbers are made from;
* `Number.isNearest_ofInt` — the number that an integer becomes;
* `Number.integers_exact` — the main statement.
-/

namespace HtmlTemplate

/-! ## The types -/

/-- An integer type, known by its sign and its width. -/
structure IntegerType where
  signed : Bool
  bits : ℕ
deriving DecidableEq

namespace IntegerType

/-- The types that numbers are made from. Two of them have the width of a pointer, which depends on the machine. -/
def convertible (pointerBits : ℕ) : List IntegerType :=
  [⟨true, 32⟩, ⟨true, 64⟩, ⟨true, pointerBits⟩, ⟨false, 8⟩, ⟨false, 32⟩, ⟨false, 64⟩, ⟨false, pointerBits⟩]

/-- The integer is in the range of the type. -/
def Holds (type : IntegerType) (n : ℤ) : Prop :=
  if type.signed then -2 ^ (type.bits - 1) ≤ n ∧ n < 2 ^ (type.bits - 1) else 0 ≤ n ∧ n < 2 ^ type.bits

instance (type : IntegerType) (n : ℤ) : Decidable (type.Holds n) :=
  inferInstanceAs (Decidable (if type.signed then _ ∧ _ else _ ∧ _))

theorem bits_le_of_mem_convertible {pointerBits : ℕ} (hpointer : pointerBits ≤ 64) {type : IntegerType}
    (h : type ∈ convertible pointerBits) : type.bits ≤ 64 := by
  simp only [convertible, List.mem_cons, List.not_mem_nil, or_false] at h
  rcases h with rfl | rfl | rfl | rfl | rfl | rfl | rfl <;> simp [hpointer]

theorem abs_le_of_holds {type : IntegerType} {n : ℤ} (h : type.Holds n) (hbits : type.bits ≤ 64) : |n| ≤ 2 ^ 64 := by
  have hrange : (2 : ℤ) ^ type.bits ≤ 2 ^ 64 := pow_le_pow_right₀ one_le_two hbits
  have hhalf : (2 : ℤ) ^ (type.bits - 1) ≤ 2 ^ 64 := pow_le_pow_right₀ one_le_two (by omega)
  rw [abs_le]
  unfold Holds at h
  split at h <;> constructor <;> linarith [h.1, h.2]

end IntegerType

namespace Number

/-! ## Integers that are numbers -/

theorem value_eq_of_natAbs {x : Number} {n : ℤ} (hsign : x.negative = decide (n < 0))
    (h : |x.value| = n.natAbs) : x.value = n := by
  rw [Nat.cast_natAbs] at h
  by_cases hn : n < 0
  · have hx : x.value ≤ 0 := value_nonpos (hsign.trans (decide_eq_true hn))
    rwa [abs_of_nonpos hx, abs_of_neg hn, Int.cast_neg, neg_inj] at h
  · have hx : 0 ≤ x.value := value_nonneg (hsign.trans (decide_eq_false hn))
    rwa [abs_of_nonneg hx, abs_of_nonneg (not_lt.mp hn)] at h

/-- An integer up to the limit is moved up until it has 53 binary digits. -/
theorem exists_mantissa {a : ℕ} (hpos : a ≠ 0) (h : a ≤ 2 ^ 53) :
    ∃ places ≤ 52, 2 ^ 52 ≤ a * 2 ^ places ∧ a * 2 ^ places ≤ 2 ^ 53 := by
  by_cases hlimit : a = 2 ^ 53
  · exact ⟨0, by omega, by omega, by omega⟩
  · have hlog : a.log2 < 53 := (Nat.log2_lt hpos).mpr (by omega)
    have hsplit : 2 ^ a.log2 * 2 ^ (52 - a.log2) = 2 ^ 52 := by
      rw [← pow_add, show a.log2 + (52 - a.log2) = 52 by omega]
    refine ⟨52 - a.log2, Nat.sub_le _ _, ?_, ?_⟩
    · rw [← hsplit]
      exact Nat.mul_le_mul_right _ (Nat.log2_self_le hpos)
    · calc a * 2 ^ (52 - a.log2) ≤ 2 ^ (a.log2 + 1) * 2 ^ (52 - a.log2) :=
            Nat.mul_le_mul_right _ Nat.lt_log2_self.le
        _ = 2 ^ 53 := by rw [pow_succ, mul_right_comm, hsplit, ← pow_succ]

/-- **Every integer up to the limit is a number.** -/
theorem exists_isInteger {n : ℤ} (h : |n| ≤ 2 ^ 53) : ∃ x : Number, x.IsInteger n := by
  by_cases hzero : n = 0
  · exact ⟨zero, rfl, by rw [value_zero, hzero, Int.cast_zero]⟩
  · rw [Int.abs_eq_natAbs] at h
    obtain ⟨places, hplaces, hlead, hfit⟩ := exists_mantissa (Int.natAbs_ne_zero.mpr hzero) (by exact_mod_cast h)
    have hmagnitude : (1074 - places) * 2 ^ 52 + n.natAbs * 2 ^ places < infiniteMagnitude := by
      unfold infiniteMagnitude maxExponentField
      omega
    refine ⟨ofMagnitude (n < 0) ((1074 - places) * 2 ^ 52 + n.natAbs * 2 ^ places), isFinite_ofMagnitude hmagnitude,
      value_eq_of_natAbs (negative_ofMagnitude (lt_of_lt_infiniteMagnitude hmagnitude)) ?_⟩
    have hexponent : ((1074 - places : ℕ) : ℤ) - 1074 = -places := by omega
    rw [abs_value_ofMagnitude hfit (fun _ => hlead) hmagnitude, hexponent, zpow_neg, zpow_natCast, Nat.cast_mul,
      Nat.cast_pow, Nat.cast_ofNat, mul_assoc, mul_inv_cancel₀ (by positivity), mul_one]

/-- **An integer becomes the nearest number.** -/
theorem isNearest_ofInt {n : ℤ} (h : |n| ≤ 2 ^ 64) : (ofInt n).IsNearest n := by
  have hlt : (n.natAbs : ℚ) / (1 : ℕ) < 2 ^ (1023 : ℤ) := by
    rw [Nat.cast_one, div_one, Nat.cast_natAbs]
    calc ((|n| : ℤ) : ℚ) ≤ ((2 ^ 64 : ℤ) : ℚ) := Int.cast_le.mpr h
      _ = 2 ^ (64 : ℤ) := by norm_cast
      _ < 2 ^ (1023 : ℤ) := zpow_lt_zpow_right₀ one_lt_two (by decide)
  have hnearest := isNearest_ofQuotient (n < 0) Nat.one_pos hlt
  rw [Nat.cast_one, div_one, Nat.cast_natAbs] at hnearest
  have hvalue : (if decide (n < 0) = true then -((|n| : ℤ) : ℚ) else ((|n| : ℤ) : ℚ)) = n := by
    by_cases hn : n < 0
    · rw [if_pos (decide_eq_true hn), abs_of_neg hn, Int.cast_neg, neg_neg]
    · rw [if_neg (by simpa using hn), abs_of_nonneg (not_lt.mp hn)]
  rwa [hvalue] at hnearest

/-- **Up to the limit no integer is rounded.** -/
theorem isInteger_ofInt {n : ℤ} (h : |n| ≤ 2 ^ 53) : (ofInt n).IsInteger n := by
  obtain ⟨x, hx⟩ := exists_isInteger h
  have hnearest : (ofInt n).IsNearest n := isNearest_ofInt (h.trans (by decide))
  exact ⟨hnearest.finite, hnearest.value_eq hx.finite hx.value_eq⟩

theorem value_ofInt_le {m n : ℤ} (hm : |m| ≤ 2 ^ 64) (hn : |n| ≤ 2 ^ 64) (h : m ≤ n) :
    (ofInt m).value ≤ (ofInt n).value := by
  rcases h.lt_or_eq with hlt | rfl
  · exact (isNearest_ofInt hm).value_le (isNearest_ofInt hn) (Int.cast_lt.mpr hlt)
  · exact le_rfl

/-- Below the limit an integer is written as its numeral, and this is the numeral of no other. -/
theorem IsInteger.isNumeralOf_display {x : Number} {n : ℤ} (h : x.IsInteger n) (hlimit : |n| < 2 ^ 53) :
    IsNumeralOf x.display n := by
  rw [h.display_eq hlimit]
  exact isNumeralOf_toString n

/-- **Integers are written exactly.** A number has no fractional part if and only if it is finite and an integer. If
    the magnitude is below `2 ^ 53`, the integer of 64 bits that the number is cast to is this integer, and the number
    is written as its numeral: with a minus sign only below zero, and without a fraction. So two such numbers are
    written alike only if they are equal. An integer of any of the types becomes the nearest number, of two the one
    with the even mantissa, and there is only one such number. Up to the magnitude `2 ^ 53` it is the integer itself,
    and below that it is written as the integer. The order of the integers is kept everywhere. -/
theorem integers_exact :
    (∀ x : Number, x.isInt = true ↔ ∃ n, x.IsInteger n) ∧
    (∀ (x : Number) (n : ℤ), x.IsInteger n → |n| < 2 ^ 53 → x.toInt64.toInt = n ∧ IsNumeralOf x.display n) ∧
    (∀ (x y : Number) (m n : ℤ), x.IsInteger m → y.IsInteger n → |m| < 2 ^ 53 → |n| < 2 ^ 53 →
      x.display = y.display → x.equal y = true) ∧
    ∀ pointerBits ≤ 64, ∀ type ∈ IntegerType.convertible pointerBits, ∀ n, type.Holds n →
      (ofInt n).IsNearest n ∧ (∀ x : Number, x.IsNearest n → x.equal (ofInt n) = true) ∧
      (|n| ≤ 2 ^ 53 → (ofInt n).value = n) ∧
      (∀ m, type.Holds m → m ≤ n → (ofInt m).value ≤ (ofInt n).value) ∧
      (|n| < 2 ^ 53 → IsNumeralOf (ofInt n).display n) := by
  refine ⟨fun x => isInt_iff, fun x n hx hlimit => ⟨?_, hx.isNumeralOf_display hlimit⟩, ?_, ?_⟩
  · have hbounds := abs_lt.mp hlimit
    exact hx.toInt64_eq (by omega) (by omega)
  · intro x y m n hx hy hm hn halike
    have hnumeral : IsNumeralOf x.display n := halike ▸ hy.isNumeralOf_display hn
    have hsame : m = n := (hx.isNumeralOf_display hm).unique hnumeral
    exact equal_of_value_eq hx.finite hy.finite (by rw [hx.value_eq, hy.value_eq, hsame])
  · intro pointerBits hpointer type htype n hn
    have hbits := IntegerType.bits_le_of_mem_convertible hpointer htype
    have hrange {k : ℤ} (hk : type.Holds k) : |k| ≤ 2 ^ 64 := IntegerType.abs_le_of_holds hk hbits
    have hnearest : (ofInt n).IsNearest n := isNearest_ofInt (hrange hn)
    refine ⟨hnearest, fun x hx => ?_, fun hlimit => ?_, fun m hm hle => ?_, fun hlimit => ?_⟩
    · exact equal_of_value_eq hx.finite hnearest.finite (hx.unique hnearest)
    · exact (isInteger_ofInt hlimit).value_eq
    · exact value_ofInt_le (hrange hm) (hrange hn) hle
    · exact (isInteger_ofInt hlimit.le).isNumeralOf_display hlimit

/-- The bits of −7, and the least integer that is between two numbers. -/
theorem integers_exact_minus_seven :
    (IsInteger ⟨0xC01C000000000000⟩ (-7) ∧ display ⟨0xC01C000000000000⟩ = "-7" ∧
      IsNumeralOf (display ⟨0xC01C000000000000⟩) (-7)) ∧
    (IntegerType.Holds ⟨true, 64⟩ (2 ^ 53 + 1) ∧ (ofInt (2 ^ 53 + 1)).IsNearest ((2 ^ 53 + 1 : ℤ) : ℚ)) := by
  obtain ⟨-, hwritten, -, htypes⟩ := integers_exact
  have hseven : IsInteger ⟨0xC01C000000000000⟩ (-7) := by
    refine ⟨rfl, ?_⟩
    rw [value, show negative ⟨0xC01C000000000000⟩ = true from rfl,
      show mantissa ⟨0xC01C000000000000⟩ = 7 * 2 ^ 50 from rfl,
      show exponent ⟨0xC01C000000000000⟩ = -50 from rfl]
    norm_num
  have hheld : IntegerType.Holds ⟨true, 64⟩ (2 ^ 53 + 1) := by decide
  exact ⟨⟨hseven, hseven.display_eq (by decide), (hwritten _ _ hseven (by decide)).2⟩, hheld,
    (htypes 64 (by decide) _ (by decide) _ hheld).1⟩

end Number

end HtmlTemplate
