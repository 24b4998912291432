import HtmlTemplate.Diagnostic

/-!
# Positions, offsets and bytes

A position that was reached by walking over some characters of a source is their number of lines and the
length of the last of them (`Position.first_after`), and exactly these characters lie in front of it
(`Position.textBefore_after`). So a range that was walked over covers the bytes that it was made for
(`Range.Covers.bytes_span`).

## Contents

* `Position.lineColumn`, `Position.le_after`, `Position.lt_after` — line and column behind some characters, and
  the order of positions;
* `Span.bytes`, `Range.bytes` — the bytes of a source that lie in a span, and those between two positions;
* `Range.Covers` — a range is the place of a text in a source.
-/

namespace HtmlTemplate

namespace Position

/-! ## Walking over characters -/

/-- The line and the column behind some characters: one line for each line feed, and one column for each
    character behind the last of them. -/
def lineColumn (cs : List Char) : Position :=
  ⟨cs.count '\n' + 1, (cs.reverse.takeWhile (· ≠ '\n')).length + 1⟩

theorem lineColumn_append_singleton (cs : List Char) (c : Char) :
    lineColumn (cs ++ [c]) = (lineColumn cs).next c := by
  unfold lineColumn next
  rw [List.count_append, List.reverse_append, List.reverse_singleton, List.singleton_append, List.takeWhile_cons]
  by_cases hc : c = '\n'
  · subst hc
    rfl
  · rw [if_pos (decide_eq_true hc), if_neg hc, List.count_singleton, if_neg (by simpa using hc)]
    rfl

/-- Walking counts lines and columns. -/
theorem first_after (cs : List Char) : first.after cs = lineColumn cs := by
  have hwalk : ∀ (behind front : List Char), (lineColumn front).after behind = lineColumn (front ++ behind) := by
    intro behind
    induction behind with
    | nil =>
      intro front
      rw [after_nil, List.append_nil]
    | cons c behind ih =>
      intro front
      rw [after_cons, ← lineColumn_append_singleton, ih, List.append_assoc, List.singleton_append]
  exact hwalk cs []

/-- Positions stand in the order of their lines, and in that of their columns in the same line. -/
instance : LE Position := ⟨fun p q => p.line < q.line ∨ p.line = q.line ∧ p.column ≤ q.column⟩

theorem le_def {p q : Position} : p ≤ q ↔ p.line < q.line ∨ p.line = q.line ∧ p.column ≤ q.column := Iff.rfl

/-- Walking goes on in the same line or comes to a later one. -/
theorem le_after (cs : List Char) (p : Position) : p ≤ p.after cs := by
  rw [le_def]
  induction cs generalizing p with
  | nil => exact .inr ⟨rfl, Nat.le_refl _⟩
  | cons c cs ih =>
    rw [after_cons]
    have hmore := ih (p.next c)
    unfold next at hmore ⊢
    by_cases hc : c = '\n'
    · rw [if_pos hc] at hmore ⊢
      dsimp only at hmore
      left
      rcases hmore with h | ⟨h, -⟩ <;> omega
    · rw [if_neg hc] at hmore ⊢
      dsimp only at hmore
      rcases hmore with h | ⟨h, hcolumn⟩
      · exact .inl h
      · exact .inr ⟨h, by omega⟩

/-- One position stands in front of another. -/
instance : LT Position := ⟨fun p q => p.line < q.line ∨ p.line = q.line ∧ p.column < q.column⟩

theorem lt_def {p q : Position} : p < q ↔ p.line < q.line ∨ p.line = q.line ∧ p.column < q.column := Iff.rfl

theorem lt_of_lt_of_le {p q r : Position} (h : p < q) (hle : q ≤ r) : p < r := by
  rw [lt_def] at h ⊢
  rw [le_def] at hle
  omega

theorem lt_next (p : Position) (c : Char) : p < p.next c := by
  rw [lt_def]
  unfold next
  by_cases hc : c = '\n'
  · rw [if_pos hc]
    left
    show p.line < p.line + 1
    omega
  · rw [if_neg hc]
    right
    show p.line = p.line ∧ p.column < p.column + 1
    omega

/-- Walking over some characters leads on. -/
theorem lt_after {cs : List Char} (h : cs ≠ []) (p : Position) : p < p.after cs := by
  cases cs with
  | nil => exact absurd rfl h
  | cons c cs =>
    rw [after_cons]
    exact lt_of_lt_of_le (lt_next p c) (le_after cs (p.next c))

/-! ## Finding the characters again -/

/-- The characters in front of `q` in a text that starts at `p`. -/
def textBetween (p q : Position) (cs : List Char) : List Char :=
  let parts := splitLines (q.line - p.line) cs
  parts.1 ++ parts.2.take (q.column - if q.line = p.line then p.column else 1)

/-- Walking over characters leads to a position that they lie in front of. -/
theorem textBetween_after (cs more : List Char) (p : Position) :
    textBetween p (p.after cs) (cs ++ more) = cs := by
  induction cs generalizing p with
  | nil =>
    rw [after_nil]
    unfold textBetween
    rw [Nat.sub_self, if_pos rfl, Nat.sub_self, splitLines]
    rfl
  | cons c cs ih =>
    have hmore := ih (p.next c)
    have hle := le_def.mp (le_after cs (p.next c))
    rw [after_cons, List.cons_append]
    generalize hq : (p.next c).after cs = q at hmore hle
    unfold textBetween at hmore ⊢
    unfold next at hmore hle
    by_cases hc : c = '\n'
    · rw [if_pos hc] at hmore hle
      dsimp only at hmore hle
      -- The line feed is the first of the lines that are skipped.
      have hline : q.line - p.line = q.line - (p.line + 1) + 1 := by
        rcases hle with h | ⟨h, -⟩ <;> omega
      have hne : q.line ≠ p.line := by
        rcases hle with h | ⟨h, -⟩ <;> omega
      rw [ite_self] at hmore
      rw [if_neg hne, hline, splitLines, if_pos hc]
      exact congrArg (c :: ·) hmore
    · rw [if_neg hc] at hmore hle
      dsimp only at hmore hle
      by_cases hline : q.line = p.line
      · have hcolumn : q.column - p.column = q.column - (p.column + 1) + 1 := by
          rcases hle with h | ⟨-, h⟩ <;> omega
        rw [if_pos hline, hline, Nat.sub_self, splitLines] at hmore
        rw [if_pos hline, hline, Nat.sub_self, splitLines, hcolumn]
        exact congrArg (c :: ·) hmore
      · have hskip : q.line - p.line = q.line - p.line - 1 + 1 := by
          rcases hle with h | ⟨h, -⟩ <;> omega
        rw [if_neg hline, hskip] at hmore
        rw [if_neg hline, hskip, splitLines, if_neg hc]
        exact congrArg (c :: ·) hmore

/-- **Exactly the characters that were walked over lie in front of a position.** -/
theorem textBefore_after (cs more : List Char) : textBefore (cs ++ more) (first.after cs) = cs := by
  have hbetween := textBetween_after cs more first
  unfold textBetween first at hbetween
  rw [ite_self] at hbetween
  exact hbetween

/-- A position of a text has one text in front of it. -/
theorem eq_of_after_eq {front front' cs : List Char} (h : front <+: cs) (h' : front' <+: cs)
    (heq : first.after front = first.after front') : front = front' := by
  obtain ⟨more, rfl⟩ := h
  obtain ⟨more', hmore⟩ := h'
  rw [← textBefore_after front more, heq, ← hmore, textBefore_after]

end Position

/-! ## Bytes -/

theorem size_utf8Encode (cs : List Char) : cs.utf8Encode.size = Position.byteLength cs := by
  induction cs with
  | nil => rfl
  | cons c cs ih =>
    rw [List.utf8Encode_cons, ByteArray.size_append, ih, List.utf8Encode_singleton, List.size_toByteArray,
      String.length_utf8EncodeChar]
    rfl

theorem byteLength_pos {cs : List Char} (h : cs ≠ []) : 0 < Position.byteLength cs := by
  cases cs with
  | nil => exact absurd rfl h
  | cons c cs =>
    have hsize := c.utf8Size_pos
    unfold Position.byteLength
    omega

/-- The bytes of a source that lie in a span. -/
def Span.bytes (span : Span) (code : String) : ByteArray :=
  code.toByteArray.extract span.start (span.start + span.length)

/-- The bytes of a source from the start of a range up to its end. -/
def Range.bytes (range : Range) (code : String) : ByteArray :=
  code.toByteArray.extract (range.start.offset code) (range.stop.offset code)

/-- The range is the place of a text, behind `front`, in a source. -/
structure Range.Covers (range : Range) (code : String) (front text : List Char) : Prop where
  isPrefix : front ++ text <+: code.toList
  start : range.start = Position.first.after front
  stop : range.stop = range.start.after text

namespace Range.Covers

variable {range : Range} {code : String} {front text : List Char}

theorem offset_start (h : range.Covers code front text) : range.start.offset code = Position.byteLength front := by
  obtain ⟨more, hcode⟩ := h.isPrefix
  unfold Position.offset
  rw [h.start, ← hcode, List.append_assoc, Position.textBefore_after]

theorem offset_stop (h : range.Covers code front text) :
    range.stop.offset code = Position.byteLength front + Position.byteLength text := by
  obtain ⟨more, hcode⟩ := h.isPrefix
  unfold Position.offset
  rw [h.stop, h.start, ← Position.after_append, ← hcode, Position.textBefore_after, Position.byteLength_append]

/-- A text that a range covers is found again from the offsets of the range. -/
theorem bytes_eq (h : range.Covers code front text) : range.bytes code = (String.ofList text).toByteArray := by
  obtain ⟨more, hcode⟩ := h.isPrefix
  have hbytes : code.toByteArray = front.utf8Encode ++ (text.utf8Encode ++ more.utf8Encode) := by
    rw [← String.utf8Encode_toList, ← hcode, List.append_assoc, List.utf8Encode_append, List.utf8Encode_append]
  unfold bytes
  rw [h.offset_start, h.offset_stop, hbytes, ← size_utf8Encode, ← size_utf8Encode]
  show ByteArray.extract _ (front.utf8Encode.size + 0) (front.utf8Encode.size + text.utf8Encode.size) = _
  rw [ByteArray.extract_append_size_add, ByteArray.extract_append_eq_left rfl, String.toByteArray_ofList]

theorem span_eq (h : range.Covers code front text) (htext : text ≠ []) :
    range.span code = ⟨Position.byteLength front, Position.byteLength text⟩ := by
  have hpos := byteLength_pos htext
  unfold Range.span
  rw [h.offset_start, h.offset_stop]
  show Span.mk _ (max (_ - _) 1) = _
  rw [Nat.add_sub_cancel_left, Nat.max_eq_left hpos]

/-- **The bytes in the span of a range** are those of the text that the range was made for. -/
theorem bytes_span (h : range.Covers code front text) (htext : text ≠ []) :
    (range.span code).bytes code = (String.ofList text).toByteArray := by
  have hbytes := h.bytes_eq
  unfold Range.bytes at hbytes
  rw [h.offset_start, h.offset_stop] at hbytes
  unfold Span.bytes
  rw [h.span_eq htext]
  exact hbytes

end Range.Covers

end HtmlTemplate
