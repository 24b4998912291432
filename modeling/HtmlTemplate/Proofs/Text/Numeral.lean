import Mathlib.Data.List.Basic
import Mathlib.Data.List.Induction

/-!
# Decimal numerals

A number has exactly one canonical numeral: digits without a zero in front of others. Reading such digits and writing
the number again gives the same digits (`toDigits_ofDigitChars`), so a text can be known as the numeral of a number
without looking at how numbers are written (`numeral?_eq_some_iff`). An integer has a minus sign in front if it is
negative, and zero has none (`IsNumeralOf`).

## Contents

* `IsCanonicalNumeral`, `numeral?` — canonical numerals, and the number that a text is the numeral of;
* `IsNumeralOf` — the numeral of an integer.
-/

namespace HtmlTemplate

/-! ## Natural numbers -/

/-- Some characters are a decimal numeral: one digit at least, digits only, and a zero in front only by itself. -/
structure IsCanonicalNumeral (digits : List Char) : Prop where
  ne_nil : digits ≠ []
  digit : ∀ d ∈ digits, d.isDigit = true
  leading : digits.head? = some '0' → digits = ['0']

theorem isCanonicalNumeral_iff {digits : List Char} : IsCanonicalNumeral digits ↔
    digits ≠ [] ∧ digits.all Char.isDigit = true ∧ (digits.head? ≠ some '0' ∨ digits = ['0']) := by
  rw [List.all_eq_true, ← imp_iff_not_or]
  exact ⟨fun h => ⟨h.ne_nil, h.digit, h.leading⟩, fun h => ⟨h.1, h.2.1, h.2.2⟩⟩

instance (digits : List Char) : Decidable (IsCanonicalNumeral digits) := decidable_of_iff _ isCanonicalNumeral_iff.symm

/-- The number that a text is the decimal numeral of. -/
def numeral? (text : String) : Option Nat :=
  if IsCanonicalNumeral text.toList then some (Nat.ofDigitChars 10 text.toList 0) else none

/-- A digit is the digit of its value. -/
theorem toDigits_of_isDigit {d : Char} (h : d.isDigit = true) :
    d.toNat - '0'.toNat < 10 ∧ Nat.toDigits 10 (d.toNat - '0'.toNat) = [d] := by
  rw [Char.isDigit, Bool.and_eq_true, decide_eq_true_eq, decide_eq_true_eq] at h
  have hbounds : 48 ≤ d.toNat ∧ d.toNat ≤ 57 :=
    ⟨UInt32.le_iff_toNat_le.mp h.1, UInt32.le_iff_toNat_le.mp h.2⟩
  have hlt : d.toNat - '0'.toNat < 10 := by
    show d.toNat - 48 < 10
    omega
  refine ⟨hlt, ?_⟩
  rw [Nat.toDigits_of_lt_base hlt, List.singleton_inj]
  apply Char.toNat_inj.mp
  rw [Nat.toNat_digitChar_of_lt_ten hlt]
  show 48 + (d.toNat - 48) = d.toNat
  omega

/-- Reading a numeral and writing the number gives the numeral. -/
theorem toDigits_ofDigitChars {digits : List Char} (h : IsCanonicalNumeral digits) :
    Nat.toDigits 10 (Nat.ofDigitChars 10 digits 0) = digits := by
  by_cases hzero : digits = ['0']
  · subst hzero
    rfl
  · have hhead : digits.head? ≠ some '0' := fun hhead => hzero (h.leading hhead)
    obtain ⟨hne, hdigit, -⟩ := h
    clear hzero
    induction digits using List.reverseRecOn with
    | nil => exact absurd rfl hne
    | append_singleton digits d ih =>
      obtain ⟨hlt, hd⟩ := toDigits_of_isDigit (hdigit d (by simp))
      rw [Nat.ofDigitChars_append, Nat.ofDigitChars_cons, Nat.ofDigitChars_nil]
      by_cases hfirst : digits = []
      · subst hfirst
        rw [Nat.ofDigitChars_nil, Nat.mul_zero, Nat.zero_add, hd]
        rfl
      · have hhead' : digits.head? ≠ some '0' := by
          rwa [List.head?_append_of_ne_nil _ hfirst] at hhead
        have hfront := ih hhead' hfirst fun d hmem => hdigit d (List.mem_append_left _ hmem)
        -- The number in front is not zero, as its numeral does not begin with one.
        have hpos : 0 < Nat.ofDigitChars 10 digits 0 := by
          apply Nat.pos_of_ne_zero
          intro hzero
          rw [hzero, Nat.toDigits_zero] at hfront
          exact hhead' (hfront ▸ rfl)
        rw [← Nat.toDigits_append_toDigits (by decide) hpos hlt, hfront, hd]

theorem head?_toDigits {n : Nat} (h : 0 < n) : (Nat.toDigits 10 n).head? ≠ some '0' := by
  induction n using Nat.strongRecOn with
  | ind n ih =>
    by_cases hlt : n < 10
    · rw [Nat.toDigits_of_lt_base hlt, List.head?_cons, ne_eq, Option.some.injEq]
      intro hchar
      have hvalue := congrArg Char.toNat hchar
      rw [Nat.toNat_digitChar_of_lt_ten hlt, show '0'.toNat = 48 from rfl] at hvalue
      omega
    · rw [Nat.toDigits_of_base_le (by decide) (Nat.le_of_not_lt hlt),
        List.head?_append_of_ne_nil _ Nat.toDigits_ne_nil]
      exact ih (n / 10) (by omega) (by omega)

theorem isCanonicalNumeral_toDigits (n : Nat) : IsCanonicalNumeral (Nat.toDigits 10 n) := by
  refine ⟨Nat.toDigits_ne_nil, fun d hmem => Nat.isDigit_of_mem_toDigits (by decide) (by decide) hmem, ?_⟩
  intro hhead
  cases Nat.eq_zero_or_pos n with
  | inl hzero => rw [hzero, Nat.toDigits_zero]
  | inr hpos => exact absurd hhead (head?_toDigits hpos)

/-- **A number has one numeral**, the text that it is written as. -/
theorem numeral?_eq_some_iff {text : String} {n : Nat} : numeral? text = some n ↔ text = n.repr := by
  unfold numeral?
  rw [Nat.repr_eq_ofList_toDigits]
  constructor
  · intro h
    split at h
    · rename_i hnumeral
      cases h
      rw [toDigits_ofDigitChars hnumeral, String.ofList_toList]
    · cases h
  · rintro rfl
    rw [String.toList_ofList, if_pos (isCanonicalNumeral_toDigits n), Nat.ofDigitChars_ten_toDigits]

/-! ## Integers -/

/-- The text is the canonical numeral of an integer: a minus sign if the integer is negative, and the numeral of its
    magnitude. -/
def IsNumeralOf (text : String) (n : Int) : Prop :=
  ∃ digits, IsCanonicalNumeral digits ∧ text.toList = (if n < 0 then '-' :: digits else digits) ∧
    Nat.ofDigitChars 10 digits 0 = n.natAbs

theorem isNumeralOf_toString (n : Int) : IsNumeralOf (toString n) n := by
  refine ⟨Nat.toDigits 10 n.natAbs, isCanonicalNumeral_toDigits _, ?_, Nat.ofDigitChars_ten_toDigits⟩
  cases n with
  | ofNat m =>
    show (Nat.repr m).toList = _
    rw [Nat.repr_eq_ofList_toDigits, String.toList_ofList, Int.ofNat_eq_natCast,
      if_neg (Int.not_lt.mpr (Int.natCast_nonneg m)), Int.natAbs_natCast]
  | negSucc m =>
    show ("-" ++ Nat.repr (m + 1)).toList = _
    rw [Nat.repr_eq_ofList_toDigits, String.toList_append, if_pos (Int.negSucc_lt_zero m),
      String.toList_ofList (l := Nat.toDigits 10 (m + 1))]
    rfl

/-- **No two integers have the same numeral.** -/
theorem IsNumeralOf.unique {text : String} {m n : Int} (h : IsNumeralOf text m) (h' : IsNumeralOf text n) : m = n := by
  obtain ⟨digits, hdigits, htext, hvalue⟩ := h
  obtain ⟨digits', hdigits', htext', hvalue'⟩ := h'
  -- A minus sign is no digit, so both have it or neither has.
  have hsign : ∀ ds, IsCanonicalNumeral ds → ∀ es : List Char, ds ≠ '-' :: es := by
    rintro _ hds es rfl
    exact absurd (hds.digit '-' List.mem_cons_self) (by decide)
  rw [htext] at htext'
  by_cases hm : m < 0 <;> by_cases hn : n < 0
  · rw [if_pos hm, if_pos hn] at htext'
    obtain ⟨-, rfl⟩ := List.cons.inj htext'
    omega
  · rw [if_pos hm, if_neg hn] at htext'
    exact absurd htext'.symm (hsign digits' hdigits' digits)
  · rw [if_neg hm, if_pos hn] at htext'
    exact absurd htext' (hsign digits hdigits digits')
  · rw [if_neg hm, if_neg hn] at htext'
    subst htext'
    omega

end HtmlTemplate
