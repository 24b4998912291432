import Mathlib.Data.List.Forall2
import HtmlTemplate.Proofs.Token.Cut
import HtmlTemplate.Text.Quoted

/-!
# Quoted texts tell where they end

A text may hold whatever characters, quotes and backslashes among them, and yet no quoted text is the beginning of
another one: what is quoted and what stands behind the closing quote can both be told from the whole
(`quoted_append_inj`). This is so for each character. Those that are written as they are are no backslashes, short
escapes differ behind their backslashes, and code points are closed by a brace, which is no digit
(`Quoted.escape_append_inj`).

## Contents

* `forall₂_of_flatMap_append` — texts one behind the other, up to a character that closes them;
* `toDigits_injective`, `toDigits_append_inj` — hexadecimal digits;
* `Quoted.escape_cases`, `Quoted.escape_append_inj` — characters;
* `quoted_append_inj` — quoted texts.
-/

namespace HtmlTemplate

/-! ## Texts one behind the other -/

/-- What stands one behind the other can be told apart, up to a character that closes it, if each text tells where it
    ends and none begins with this character. -/
theorem forall₂_of_flatMap_append {α : Type} {R : α → α → Prop} {text : α → List Char} {close : Char}
    {as bs : List α} {xs ys : List Char} (hopen : ∀ a us vs, text a ++ us ≠ close :: vs)
    (htext : ∀ a ∈ as, ∀ b ∈ bs, ∀ us vs, text a ++ us = text b ++ vs → R a b ∧ us = vs)
    (h : as.flatMap text ++ close :: xs = bs.flatMap text ++ close :: ys) : List.Forall₂ R as bs ∧ xs = ys := by
  induction as generalizing bs with
  | nil =>
    cases bs with
    | nil => exact ⟨.nil, (List.cons.inj h).2⟩
    | cons b bs =>
      rw [List.flatMap_cons, List.append_assoc] at h
      exact absurd h.symm (hopen b _ _)
  | cons a as ih =>
    rw [List.flatMap_cons, List.append_assoc] at h
    cases bs with
    | nil => exact absurd h (hopen a _ _)
    | cons b bs =>
      rw [List.flatMap_cons, List.append_assoc] at h
      obtain ⟨hfirst, hmore⟩ := htext a List.mem_cons_self b List.mem_cons_self _ _ h
      have hrest := fun a' ha b' hb => htext a' (List.mem_cons_of_mem a ha) b' (List.mem_cons_of_mem b hb)
      obtain ⟨hall, hxs⟩ := ih hrest hmore
      exact ⟨.cons hfirst hall, hxs⟩

/-! ## Hexadecimal digits -/

theorem digitChar_inj {m n : Nat} (hm : m < 16) (hn : n < 16) (h : Nat.digitChar m = Nat.digitChar n) : m = n := by
  have hall : ∀ m < 16, ∀ n < 16, Nat.digitChar m = Nat.digitChar n → m = n := by decide
  exact hall m hm n hn h

theorem toDigits_injective : Function.Injective (Nat.toDigits 16) := by
  intro m n h
  induction m using Nat.strong_induction_on generalizing n with
  | _ m ih =>
    rw [Nat.toDigits_eq_if (by decide), @Nat.toDigits_eq_if 16 n (by decide)] at h
    by_cases hm : m < 16
    · by_cases hn : n < 16
      · rw [if_pos hm, if_pos hn, List.singleton_inj] at h
        exact digitChar_inj hm hn h
      · rw [if_pos hm, if_neg hn] at h
        simp [List.singleton_eq_append_iff, Nat.toDigits_ne_nil] at h
    · by_cases hn : n < 16
      · rw [if_neg hm, if_pos hn] at h
        simp [List.append_eq_singleton_iff, Nat.toDigits_ne_nil] at h
      · rw [if_neg hm, if_neg hn] at h
        obtain ⟨hfront, hlast⟩ := List.append_inj' h rfl
        have hdiv : m / 16 = n / 16 := ih (m / 16) (by omega) hfront
        have hmod : m % 16 = n % 16 := digitChar_inj (by omega) (by omega) (List.singleton_inj.mp hlast)
        omega

/-- A brace is no digit. -/
theorem ne_brace_of_mem_toDigits {n : Nat} {c : Char} (h : c ∈ Nat.toDigits 16 n) : c ≠ '}' := by
  have hdigit : ∀ m < 16, Nat.digitChar m ≠ '}' := by decide
  induction n using Nat.strong_induction_on with
  | _ n ih =>
    rw [Nat.toDigits_eq_if (by decide)] at h
    by_cases hn : n < 16
    · rw [if_pos hn, List.mem_singleton] at h
      rw [h]
      exact hdigit n hn
    · rw [if_neg hn, List.mem_append, List.mem_singleton] at h
      rcases h with hfront | hlast
      · exact ih (n / 16) (by omega) hfront
      · rw [hlast]
        exact hdigit _ (by omega)

/-- Numerals are told apart up to the brace that closes them. -/
theorem toDigits_append_inj {m n : Nat} {us vs : List Char}
    (h : Nat.toDigits 16 m ++ '}' :: us = Nat.toDigits 16 n ++ '}' :: vs) : m = n ∧ us = vs := by
  have hfront : ∀ (n : Nat) (vs : List Char),
      (Nat.toDigits 16 n ++ '}' :: vs).takeWhile (· ≠ '}') = Nat.toDigits 16 n := by
    intro n vs
    exact Lexeme.takeWhile_append_of_stop (fun c hc => decide_eq_true (ne_brace_of_mem_toDigits hc))
      (Lexeme.stops_cons (by decide))
  obtain rfl : m = n := by
    apply toDigits_injective
    rw [← hfront m us, h, hfront]
  exact ⟨rfl, (List.cons.inj (List.append_cancel_left h)).2⟩

/-! ## Characters -/

namespace Quoted

/-- The characters whose escapes are short, with what follows the backslash. -/
def shortEscapes : List (Char × Char) :=
  [('\x00', '0'), ('\t', 't'), ('\r', 'r'), ('\n', 'n'), ('"', '"'), ('\\', '\\')]

/-- A character is written as it is, with a short escape, or as a code point. -/
theorem escape_cases (c : Char) :
    escape c = [c] ∧ c ≠ '\\' ∧ c ≠ '"' ∨ (∃ e, escape c = ['\\', e] ∧ (c, e) ∈ shortEscapes) ∨
      escape c = codePoint c := by
  unfold escape
  split
  case h_7 _ _ _ _ _ hquote hbackslash =>
    split
    · exact .inl ⟨rfl, hbackslash, hquote⟩
    · exact .inr (.inr rfl)
  all_goals exact .inr (.inl ⟨_, rfl, by decide⟩)

/-- No character is written as a quote would be. -/
theorem escape_append_ne (c : Char) (us vs : List Char) : escape c ++ us ≠ '"' :: vs := by
  intro h
  obtain ⟨hescape, -, hquote⟩ | ⟨e, hescape, -⟩ | hescape := escape_cases c
  · rw [hescape] at h
    exact hquote (List.cons.inj h).1
  · rw [hescape] at h
    cases (List.cons.inj h).1
  · rw [hescape] at h
    cases (List.cons.inj h).1

/-- **Characters tell where they end.** -/
theorem escape_append_inj {c d : Char} {us vs : List Char} (h : escape c ++ us = escape d ++ vs) : c = d ∧ us = vs := by
  have hshort : ∀ p ∈ shortEscapes, p.2 ≠ 'u' ∧ ∀ q ∈ shortEscapes, p.2 = q.2 → p.1 = q.1 := by decide
  -- What is written in two ways differs in the first character, or behind the backslash.
  obtain ⟨hc, hplain, -⟩ | ⟨e, hc, he⟩ | hc := escape_cases c <;>
    obtain ⟨hd, hplain', -⟩ | ⟨e', hd, he'⟩ | hd := escape_cases d <;> rw [hc, hd] at h
  · exact List.cons.inj h
  · exact absurd (List.cons.inj h).1 hplain
  · exact absurd (List.cons.inj h).1 hplain
  · exact absurd (List.cons.inj h).1.symm hplain'
  · obtain ⟨hsame, hrest⟩ := List.cons.inj (List.cons.inj h).2
    exact ⟨(hshort _ he).2 _ he' hsame, hrest⟩
  · exact absurd (List.cons.inj (List.cons.inj h).2).1 (hshort _ he).1
  · exact absurd (List.cons.inj h).1.symm hplain'
  · exact absurd (List.cons.inj (List.cons.inj h).2).1.symm (hshort _ he').1
  · simp only [codePoint, List.append_assoc, List.cons_append, List.nil_append, List.cons.injEq, true_and] at h
    obtain ⟨hsame, hrest⟩ := toDigits_append_inj h
    exact ⟨Char.toNat_inj.mp hsame, hrest⟩

end Quoted

/-- **Quoted texts tell where they end**, whatever they are and whatever stands behind them. -/
theorem quoted_append_inj {text text' : String} {xs ys : List Char}
    (h : (quoted text).toList ++ xs = (quoted text').toList ++ ys) : text = text' ∧ xs = ys := by
  simp only [quoted, String.toList_ofList, List.cons_append, List.append_assoc, List.cons.injEq, true_and,
    List.nil_append] at h
  obtain ⟨hall, hrest⟩ :=
    forall₂_of_flatMap_append Quoted.escape_append_ne (fun _ _ _ _ _ _ => Quoted.escape_append_inj) h
  rw [List.forall₂_eq_eq_eq, String.toList_inj] at hall
  exact ⟨hall, hrest⟩

end HtmlTemplate
