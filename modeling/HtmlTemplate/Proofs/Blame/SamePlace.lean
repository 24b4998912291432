import HtmlTemplate.Proofs.Blame.Malformed

/-!
# Where position and span stand

A diagnostic says twice where an error is: by line and column, and by the bytes of its span. For a range both are found
by the same characters in front of it, so they stand at the same place whenever the range lies in the source.

At the end of a source they are found in two ways. The span stands behind all bytes, and the position behind the text of
the last line, where the end of that line does not count (`Position.pastLastLine_eq`). So a source whose last line has
an end gets two places (`Diagnostic.samePlace_iff`): the span stands on the line below, in which there is nothing, while
the position is still on the last line. A token that is found at the end of the same source is placed on the line below.

## Contents

* `Position.endOf`, `Position.pastLastLine_eq_endOf` — lines, walked over one after the other;
* `Position.withoutLineEnd`, `Position.pastLastLine_eq` — the characters in front of the end of the last line;
* `Diagnostic.SamePlace`, `Diagnostic.samePlace_iff` — whether position and span stand at the same place;
* `Diagnostic.not_samePlace_cut` — a source in which they do not.
-/

namespace HtmlTemplate

namespace Position

/-! ## Behind the last line -/

/-- The position behind some lines, the first of which begins at `p`. -/
def endOf (p : Position) : List (List Char) → Position
  | [] => p
  | [line] => ⟨p.line, p.column + line.length⟩
  | _ :: rest => endOf ⟨p.line + 1, 1⟩ rest

theorem endOf_cons {lines : List (List Char)} (h : lines ≠ []) (p : Position) (line : List Char) :
    endOf p (line :: lines) = endOf ⟨p.line + 1, 1⟩ lines := by
  cases lines with
  | nil => exact absurd rfl h
  | cons next rest => rfl

/-- One more character in the first line moves the position of a single line, and no other. -/
theorem endOf_cons_cons (p : Position) (c : Char) (line : List Char) (rest : List (List Char)) :
    endOf p ((c :: line) :: rest) = endOf ⟨p.line, p.column + 1⟩ (line :: rest) := by
  cases rest with
  | nil =>
    rw [endOf, endOf, List.length_cons, Nat.add_right_comm]
    rfl
  | cons next rest => rfl

theorem endOf_eq {lines : List (List Char)} {line : List Char} (h : lines.getLast? = some line) (n : Nat) :
    endOf ⟨n, 1⟩ lines = ⟨n + (lines.length - 1), line.length + 1⟩ := by
  induction lines generalizing n with
  | nil => cases h
  | cons first rest ih =>
    cases rest with
    | nil =>
      obtain rfl : first = line := by simpa using h
      rw [endOf, Nat.add_comm 1]
      rfl
    | cons next rest =>
      rw [List.getLast?_cons_cons] at h
      rw [endOf_cons (List.cons_ne_nil _ _), ih h]
      simp only [List.length_cons, mk.injEq, and_true]
      omega

theorem pastLastLine_eq_endOf (cs : List Char) : pastLastLine cs = endOf first (lines cs) := by
  unfold pastLastLine
  cases hlast : (lines cs).getLast? with
  | none =>
    rw [List.getLast?_eq_none_iff.mp hlast]
    rfl
  | some line =>
    have hne : lines cs ≠ [] := by
      intro hnil
      rw [hnil] at hlast
      cases hlast
    have hpos := List.length_pos_iff.mpr hne
    rw [first, endOf_eq hlast]
    show Position.mk _ _ = Position.mk _ _
    congr 1
    omega

/-- A text without the end of its last line: a line feed, and the carriage return in front of it if there is one. -/
def withoutLineEnd : List Char → List Char
  | [] => []
  | ['\n'] => []
  | ['\r', '\n'] => []
  | c :: cs => c :: withoutLineEnd cs

theorem lines_ne_nil {cs : List Char} (h : cs ≠ []) : lines cs ≠ [] := by
  unfold lines
  split
  · exact absurd rfl h
  · exact List.cons_ne_nil _ _
  · exact List.cons_ne_nil _ _
  · split <;> exact List.cons_ne_nil _ _

theorem withoutLineEnd_cons {c : Char} {cs : List Char} (hfeed : c = '\n' → cs ≠ [])
    (hreturn : c = '\r' → cs ≠ ['\n']) : withoutLineEnd (c :: cs) = c :: withoutLineEnd cs := by
  conv_lhs => unfold withoutLineEnd
  split <;> simp_all

/-- Walking over all but the last line's end leads behind the text of the lines. -/
theorem after_withoutLineEnd (cs : List Char) (p : Position) : p.after (withoutLineEnd cs) = endOf p (lines cs) := by
  fun_induction lines cs generalizing p with
  | case1 => rfl
  | case2 cs ih =>
    by_cases hcs : cs = []
    · subst hcs
      rfl
    · rw [withoutLineEnd_cons (c := '\n') (fun _ => hcs) (fun h => absurd h (by decide)), after_cons, ih,
        endOf_cons (lines_ne_nil hcs)]
      rfl
  | case3 cs ih =>
    by_cases hcs : cs = []
    · subst hcs
      rfl
    · rw [withoutLineEnd_cons (c := '\r') (fun _ => List.cons_ne_nil _ _) (fun _ => by simpa using hcs),
        withoutLineEnd_cons (c := '\n') (fun _ => hcs) (fun h => absurd h (by decide)), after_cons, after_cons, ih,
        endOf_cons (lines_ne_nil hcs)]
      rfl
  | case4 c cs hfeed hreturn hlines ih =>
    have hnext : p.next c = ⟨p.line, p.column + 1⟩ := if_neg hfeed
    rw [withoutLineEnd_cons (fun h => absurd h hfeed) (fun h hcs => hreturn [] h hcs), after_cons, ih, hlines, hnext]
    rfl
  | case5 c cs hfeed hreturn line rest hlines ih =>
    have hnext : p.next c = ⟨p.line, p.column + 1⟩ := if_neg hfeed
    rw [withoutLineEnd_cons (fun h => absurd h hfeed) (fun h hcs => hreturn [] h hcs), after_cons, ih, hlines, hnext,
      endOf_cons_cons]

/-- **The position behind the last line** counts all characters but those of its end. -/
theorem pastLastLine_eq (cs : List Char) : pastLastLine cs = lineColumn (withoutLineEnd cs) := by
  rw [pastLastLine_eq_endOf, ← after_withoutLineEnd, first_after]

theorem withoutLineEnd_isPrefix (cs : List Char) : withoutLineEnd cs <+: cs := by
  fun_induction withoutLineEnd cs with
  | case1 | case2 | case3 => exact List.nil_prefix
  | case4 c cs _ _ ih => exact List.cons_prefix_cons.mpr ⟨rfl, ih⟩

/-- Nothing is left out unless the text ends in a line feed. -/
theorem withoutLineEnd_eq_self_iff {cs : List Char} : withoutLineEnd cs = cs ↔ cs.getLast? ≠ some '\n' := by
  fun_induction withoutLineEnd cs with
  | case1 | case2 | case3 => decide
  | case4 c cs hfeed _ ih =>
    rw [List.cons.injEq, eq_self, true_and, ih]
    cases cs with
    | nil => simpa using fun h => hfeed h rfl
    | cons d ds => rw [List.getLast?_cons_cons]

/-- A text that is as long as the whole has all characters of it. -/
theorem eq_of_byteLength_eq {front cs : List Char} (h : front <+: cs) (hlength : byteLength front = byteLength cs) :
    front = cs := by
  obtain ⟨more, rfl⟩ := h
  rw [byteLength_append] at hlength
  cases more with
  | nil => rw [List.append_nil]
  | cons c more =>
    have hpos := byteLength_pos (List.cons_ne_nil c more)
    omega

end Position

/-! ## Diagnostics -/

namespace Diagnostic

/-- The position is the line and the column of the byte at which the span starts: the same characters of the source
    stand in front of both. -/
def SamePlace (diagnostic : Diagnostic) : Prop :=
  ∃ front, front <+: diagnostic.source.toList ∧ diagnostic.span.start = Position.byteLength front ∧
    diagnostic.position = some (Position.lineColumn front)

section

variable {cause : Cause} {sources : Sources} {file : Nat}

/-- What lies in front of a range in the source lies in front of both. -/
theorem samePlace_of_range {range : Range} {front text : List Char} (horigin : cause.origin = some (file, some range))
    (hcovers : range.Covers (sources.code file) front text) : (ofCause cause sources).SamePlace := by
  unfold ofCause
  rw [horigin]
  refine ⟨front, (List.prefix_append front text).trans hcovers.isPrefix, hcovers.offset_start, ?_⟩
  rw [← Position.first_after, ← hcovers.start]

theorem ofCause_end (horigin : cause.origin = some (file, none)) :
    ofCause cause sources =
      ⟨cause, sources.name file, sources.code file, ⟨(sources.code file).utf8ByteSize, 0⟩,
        Position.lineColumn (Position.withoutLineEnd (sources.code file).toList)⟩ := by
  unfold ofCause
  rw [horigin, ← Position.pastLastLine_eq]

/-- The end of a source is one place unless its last line has an end. -/
theorem samePlace_end_iff (horigin : cause.origin = some (file, none)) :
    (ofCause cause sources).SamePlace ↔ (sources.code file).toList.getLast? ≠ some '\n' := by
  rw [ofCause_end horigin, ← Position.withoutLineEnd_eq_self_iff]
  constructor
  · rintro ⟨front, hfront, hstart, hposition⟩
    -- All characters stand in front of the span, so the position would have to count them all.
    have hall : front = (sources.code file).toList :=
      Position.eq_of_byteLength_eq hfront (by rw [byteLength_toList]; exact hstart.symm)
    subst hall
    have hposition := Option.some.inj hposition
    rw [← Position.first_after, ← Position.first_after] at hposition
    exact Position.eq_of_after_eq (Position.withoutLineEnd_isPrefix _) hfront hposition
  · intro hself
    refine ⟨(sources.code file).toList, List.prefix_refl _, (byteLength_toList _).symm, ?_⟩
    dsimp only
    rw [hself]

/-- **Position and span stand at the same place** for an error with a range in its source. At the end of the source they
    do exactly if it does not end in a line feed: the span stands behind all bytes, but the position does not count the
    end of the last line. -/
theorem samePlace_iff {range? : Option Range} (horigin : cause.origin = some (file, range?))
    (hrange : ∀ range ∈ range?, ∃ front text, range.Covers (sources.code file) front text) :
    ((ofCause cause sources).SamePlace ↔ (range? = none → (sources.code file).toList.getLast? ≠ some '\n')) ∧
      (range? = none →
        (ofCause cause sources).span = ⟨(sources.code file).utf8ByteSize, 0⟩ ∧
        (ofCause cause sources).position =
          some (Position.lineColumn (Position.withoutLineEnd (sources.code file).toList))) := by
  cases range? with
  | some range =>
    obtain ⟨front, text, hcovers⟩ := hrange range rfl
    exact ⟨iff_of_true (samePlace_of_range horigin hcovers) nofun, nofun⟩
  | none =>
    refine ⟨?_, fun _ => ?_⟩
    · rw [samePlace_end_iff horigin, forall_prop_of_true rfl]
    · rw [ofCause_end horigin]
      exact ⟨rfl, rfl⟩

end

/-- The last call of a source that has ends of lines of both kinds, the last line among them. -/
theorem samePlace_iff_call :
    let code := "\u00e9\r\nb\n"
    let range : Range := ⟨⟨2, 1⟩, ⟨2, 2⟩⟩
    let diagnostic := ofCause (.render (.notDefined ⟨0, range⟩ "b")) ⟨[⟨"t.tl", code⟩]⟩
    range.Covers code ['\u00e9', '\r', '\n'] ['b'] ∧ diagnostic.span = ⟨4, 1⟩ ∧ diagnostic.SamePlace := by
  have hcovers : Range.Covers ⟨⟨2, 1⟩, ⟨2, 2⟩⟩ "\u00e9\r\nb\n" ['\u00e9', '\r', '\n'] ['b'] :=
    ⟨⟨['\n'], rfl⟩, rfl, rfl⟩
  refine ⟨hcovers, rfl, (samePlace_iff rfl fun range hrange => ?_).1.mpr nofun⟩
  cases hrange
  exact ⟨_, _, hcovers⟩

/-- A source that ends in a line feed, its tokens cut off behind the opening brace. The end is blamed, and the position
    stands behind the brace, while the span starts behind the line feed. For the whole token list the error is found at
    the same byte, and there its position stands on the line below. -/
theorem not_samePlace_cut :
    let code := "def a \x7b\n"
    let scope : CallScope := ⟨0, fun _ => false⟩
    let token (kind : TokenKind Range) (column stop : Nat) : Token := ⟨kind, ⟨⟨1, column⟩, ⟨1, stop⟩⟩, 0⟩
    let eof : Token := ⟨.eof, ⟨⟨2, 1⟩, ⟨2, 1⟩⟩, 0⟩
    let tokens := [token (.ident "def") 1 4, token (.ident "a") 5 6, token .lbrace 7 8, eof]
    let place (error : SyntaxError) := ofCause (.parse error) ⟨[⟨"t.tl", code⟩]⟩
    tokenize code 0 = .ok tokens ∧
      definitions scope (tokens.take 3) = .error (.endOfTokens 0) ∧
      (place (.endOfTokens 0)).span.start = 8 ∧ (place (.endOfTokens 0)).position = some ⟨1, 8⟩ ∧
      ¬(place (.endOfTokens 0)).SamePlace ∧
      definitions scope tokens = .error (.fault .expectedClosingBrace eof) ∧
      (place (.fault .expectedClosingBrace eof)).span.start = 8 ∧
      (place (.fault .expectedClosingBrace eof)).position = some ⟨2, 1⟩ := by
  intro code scope token eof tokens place
  have hplace : ¬(place (.endOfTokens 0)).SamePlace := by
    rw [samePlace_end_iff rfl]
    decide
  exact ⟨by decide +kernel, by decide +kernel, by decide +kernel, by decide +kernel, hplace, by decide +kernel,
    by decide +kernel, by decide +kernel⟩

end Diagnostic

end HtmlTemplate
