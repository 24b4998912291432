import HtmlTemplate.Proofs.Source.Place

/-!
# Places in joined texts

When a text is put behind another one, its first line goes on in the last line of the front, and its other lines are
counted from there. So each of its places has a new one (`Position.behind`), and the offsets of all of them grow by the
length of the front (`Position.offset_behind`).

## Contents

* `Position.behind`, `Range.behind` — the new place of a position and of a range;
* `Position.after_behind` — walking over characters before and after joining;
* `Range.span_behind` — the bytes of a range in the joined text.
-/

namespace HtmlTemplate

namespace Position

/-! ## Walking -/

/-- Where a position of a text stands when this text is put behind `front`. -/
def behind (front : List Char) (p : Position) : Position :=
  if p.line ≤ 1 then ⟨(first.after front).line, (first.after front).column + (p.column - 1)⟩
  else ⟨(first.after front).line + (p.line - 1), p.column⟩

variable {front : List Char} {p : Position}

theorem le_trans {q r : Position} (h : p ≤ q) (hle : q ≤ r) : p ≤ r := by
  rw [le_def] at h hle ⊢
  omega

theorem behind_first : first.behind front = first.after front := rfl

theorem behind_next (h : first ≤ p) (c : Char) : (p.next c).behind front = (p.behind front).next c := by
  obtain ⟨line, column⟩ := p
  have hfirst : 1 < line ∨ 1 = line ∧ 1 ≤ column := h
  unfold next behind
  dsimp only
  by_cases hc : c = '\n'
  · rw [if_pos hc, if_pos hc]
    have hmore : ¬ line + 1 ≤ 1 := by omega
    rw [if_neg hmore]
    by_cases hline : line ≤ 1
    · rw [if_pos hline, show line + 1 - 1 = 1 by omega]
    · rw [if_neg hline, show line + 1 - 1 = line - 1 + 1 by omega]
      rfl
  · rw [if_neg hc, if_neg hc]
    by_cases hline : line ≤ 1
    · rw [if_pos hline, if_pos hline, show column + 1 - 1 = column - 1 + 1 by omega]
      rfl
    · rw [if_neg hline, if_neg hline]

/-- **The same characters lead to the same place**, before joining and after it. -/
theorem after_behind (h : first ≤ p) (cs : List Char) : (p.after cs).behind front = (p.behind front).after cs := by
  induction cs generalizing p with
  | nil => rfl
  | cons c cs ih =>
    have hnext : first ≤ p.next c := le_trans h (le_after [c] p)
    rw [after_cons, after_cons, ih hnext, behind_next h]

/-- The place behind a front and a text. -/
theorem first_after_append (front cs : List Char) : first.after (front ++ cs) = (first.after cs).behind front := by
  rw [after_append, after_behind (.inr ⟨rfl, Nat.le_refl _⟩), behind_first]

/-! ## Offsets -/

theorem splitLines_append_eq (skipped : Nat) (cs : List Char) :
    (splitLines skipped cs).1 ++ (splitLines skipped cs).2 = cs := by
  fun_induction splitLines skipped cs with
  | case1 | case2 => rfl
  | case3 skipped c cs parts ih => exact congrArg (c :: ·) ih

/-- More lines than those of the front are skipped. -/
theorem splitLines_append (front cs : List Char) (skipped : Nat) :
    splitLines (front.count '\n' + (skipped + 1)) (front ++ cs) =
      (front ++ (splitLines (skipped + 1) cs).1, (splitLines (skipped + 1) cs).2) := by
  induction front with
  | nil => rw [List.count_nil, Nat.zero_add, List.nil_append, List.nil_append]
  | cons c front ih =>
    rw [← Nat.add_assoc, List.cons_append, splitLines]
    by_cases hc : c = '\n'
    · subst hc
      have hcount : List.count '\n' ('\n' :: front) + skipped = front.count '\n' + (skipped + 1) := by
        rw [List.count_cons_self]
        omega
      rw [if_pos rfl, hcount, ih]
      rfl
    · rw [if_neg hc, List.count_cons_of_ne hc, Nat.add_assoc, ih]
      rfl

/-- **The front lies in front of each place of the text behind it**, and then what lay there before. -/
theorem textBefore_behind (front cs : List Char) (p : Position) :
    textBefore (front ++ cs) (p.behind front) = front ++ textBefore cs p := by
  unfold behind
  by_cases hline : p.line ≤ 1
  · -- On the first line, it goes on in the line on which the front ends.
    rw [if_pos hline]
    have hfront := textBefore_after front cs
    have hcolumn : 1 ≤ (first.after front).column := by
      rw [first_after]
      exact Nat.le_add_left _ _
    have hskip : (first.after front).column + (p.column - 1) - 1 = (first.after front).column - 1 + (p.column - 1) := by
      omega
    have hline' : p.line - 1 = 0 := by omega
    have hsplit := splitLines_append_eq ((first.after front).line - 1) (front ++ cs)
    unfold textBefore at hfront ⊢
    dsimp only at hfront ⊢
    generalize splitLines ((first.after front).line - 1) (front ++ cs) = parts at hfront hsplit ⊢
    obtain ⟨skipped, rest⟩ := parts
    dsimp only at hfront hsplit ⊢
    rw [hline', splitLines, List.nil_append, hskip, List.take_add, ← List.append_assoc, hfront]
    rw [← List.take_append_drop ((first.after front).column - 1) rest, ← List.append_assoc, hfront] at hsplit
    rw [List.append_cancel_left hsplit]
  · rw [if_neg hline]
    obtain ⟨skipped, hskipped⟩ : ∃ skipped, p.line - 1 = skipped + 1 := ⟨p.line - 2, by omega⟩
    have hlines : (first.after front).line + (p.line - 1) - 1 = front.count '\n' + (skipped + 1) := by
      rw [first_after, hskipped]
      show front.count '\n' + 1 + (skipped + 1) - 1 = _
      omega
    unfold textBefore
    dsimp only
    rw [hlines, hskipped, splitLines_append, List.append_assoc]

/-- **Offsets grow by the length of the front.** -/
theorem offset_behind (front code : String) (p : Position) :
    (p.behind front.toList).offset (front ++ code) = byteLength front.toList + p.offset code := by
  unfold offset
  rw [String.toList_append, textBefore_behind, byteLength_append]

end Position

namespace Range

/-- Where a range of a text lies when this text is put behind `front`. -/
def behind (front : List Char) (range : Range) : Range := ⟨range.start.behind front, range.stop.behind front⟩

/-- A span of the text behind the front is as long as it was. -/
theorem span_behind (front code : String) (range : Range) :
    (range.behind front.toList).span (front ++ code) =
      ⟨Position.byteLength front.toList + (range.span code).start, (range.span code).length⟩ := by
  unfold span behind
  dsimp only
  rw [Position.offset_behind, Position.offset_behind, Nat.add_sub_add_left]

end Range

end HtmlTemplate
