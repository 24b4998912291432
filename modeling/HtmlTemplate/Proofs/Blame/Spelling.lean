import HtmlTemplate.Proofs.Blame.Spot
import HtmlTemplate.Proofs.Source.Place

/-!
# Where the spots of a source stand

The lexemes of a source are pieces of it that lie one behind the other, and each token has the range of its
piece. So the range of every spot covers a text of the source, and this text is one of the spellings of the
spot (`scan_spots`). For a spot in a literal the argument is made once more inside the piece, whose segments
lie one behind the other as well.

## Contents

* `Lexeme.path_text`, `reference_text`, `literalBody_segments` — what references were read from;
* `Lexeme.SpelledBy`, `lexeme_spelledBy` — what the text of a lexeme tells about its token;
* `lexemes_append` — the lexemes of a text lie one behind the other;
* `scan_spots` — the spots of a scanned source.
-/

namespace HtmlTemplate

namespace Lexeme

/-! ## References -/

theorem pathSegment_text {cs : List Char} {piece : Piece String} (h : pathSegment cs = some piece) :
    piece.text = piece.value.toList := by
  unfold pathSegment at h
  split at h
  · cases h
  · split at h
    · cases h
      rw [String.toList_ofList]
    · split at h
      · cases h
        rw [String.toList_ofList]
      · cases h

theorem path_text {cs : List Char} {piece : Piece Path} (h : path cs = some piece) :
    piece.text = piece.value.display.toList ∧ piece.value ≠ [] := by
  fun_induction path cs generalizing piece with
  | case1 => cases h
  | case2 cs head hs | case4 cs head hs =>
    cases h
    refine ⟨?_, List.cons_ne_nil _ _⟩
    rw [pathSegment_text hs, Path.display, String.intercalate_singleton]
  | case3 cs head hs cs' hr tail ht ih =>
    cases h
    obtain ⟨htext, hne⟩ := ih ht
    refine ⟨?_, List.cons_ne_nil _ _⟩
    rw [pathSegment_text hs, htext, Path.display, Path.display, String.intercalate_cons_of_ne_nil hne,
      String.toList_append, String.toList_append, List.append_assoc]
    rfl

theorem pathOrGroup_text {cs : List Char} {piece : Piece Path} (h : pathOrGroup cs = some piece) :
    piece.text = piece.value.display.toList ∨ piece.text = '(' :: piece.value.display.toList ++ [')'] := by
  unfold pathOrGroup at h
  split at h
  · split at h
    · cases h
    · rename_i inner hpath
      split at h
      · cases h
        right
        rw [(path_text hpath).1]
      · cases h
  · exact .inl (path_text h).1

/-- The sign of a reference, possibly with a tilde, and a path make a spelling. -/
theorem mem_spellings {path : Path} {text : List Char}
    (h : text = path.display.toList ∨ text = '(' :: path.display.toList ++ [')']) :
    String.ofList ('@' :: text) ∈ (Spot.reference path).spellings ∧
      String.ofList ('@' :: '~' :: text) ∈ (Spot.reference path).spellings := by
  unfold Spot.spellings
  rcases h with rfl | rfl
  · have hbare : String.ofList ('@' :: path.display.toList) = "@" ++ path.display := by
      apply String.toList_injective
      rw [String.toList_ofList, String.toList_append]
      rfl
    have hescaped : String.ofList ('@' :: '~' :: path.display.toList) = "@~" ++ path.display := by
      apply String.toList_injective
      rw [String.toList_ofList, String.toList_append]
      rfl
    rw [hbare, hescaped]
    exact ⟨by simp, by simp⟩
  · have hgroup : String.ofList ('@' :: ('(' :: path.display.toList ++ [')'])) = "@(" ++ path.display ++ ")" := by
      apply String.toList_injective
      rw [String.toList_ofList, String.toList_append, String.toList_append]
      rfl
    have hescaped :
        String.ofList ('@' :: '~' :: ('(' :: path.display.toList ++ [')'])) = "@~(" ++ path.display ++ ")" := by
      apply String.toList_injective
      rw [String.toList_ofList, String.toList_append, String.toList_append]
      rfl
    rw [hgroup, hescaped]
    exact ⟨by simp, by simp⟩

theorem reference_text {cs : List Char} {piece : Piece Reference} (h : reference cs = some piece) :
    String.ofList ('@' :: piece.text) ∈ (Spot.reference piece.value.path).spellings := by
  unfold reference at h
  split at h
  · obtain ⟨path, hpath, rfl⟩ := Option.map_eq_some_iff.mp h
    exact (mem_spellings (pathOrGroup_text hpath)).2
  · obtain ⟨path, hpath, rfl⟩ := Option.map_eq_some_iff.mp h
    exact (mem_spellings (pathOrGroup_text hpath)).1

/-! ## Literals -/

/-- A run without value was read from nothing. -/
theorem escapedRun_text_eq_nil {stop : Char → Bool} {cs : List Char} (h : (escapedRun stop cs).value = []) :
    (escapedRun stop cs).text = [] := by
  fun_induction escapedRun stop cs with
  | case1 | case3 => rfl
  | case2 | case4 => cases h

theorem flatMap_textSegments {value text : List Char} (h : value = [] → text = []) :
    (textSegments value text).flatMap Prod.snd = text := by
  unfold textSegments
  by_cases hvalue : value = []
  · rw [if_pos hvalue, h hvalue]
    rfl
  · rw [if_neg hvalue]
    exact List.append_nil text

/-- The references of a literal, each with the text that it was read from. -/
def SegmentsSpelled (segments : List (Segment × List Char)) : Prop :=
  ∀ ref text, (Segment.reference ref, text) ∈ segments → String.ofList text ∈ (Spot.reference ref.path).spellings

theorem segmentsSpelled_textSegments (value text : List Char) : SegmentsSpelled (textSegments value text) := by
  intro ref text' hmem
  unfold textSegments at hmem
  by_cases hvalue : value = []
  · rw [if_pos hvalue] at hmem
    cases hmem
  · rw [if_neg hvalue] at hmem
    cases List.mem_singleton.mp hmem

/-- The segments of a literal are its text up to the closing tilde, one behind the other. -/
theorem literalBody_segments {cs : List Char} {piece : Piece (List (Segment × List Char))}
    (h : literalBody cs = .ok piece) :
    piece.text = piece.value.flatMap Prod.snd ++ ['~'] ∧ SegmentsSpelled piece.value := by
  fun_induction literalBody cs generalizing piece with
  | case1 cs value text rest hrun =>
    cases h
    have htext : value = [] → text = [] := by
      have hnil := @escapedRun_text_eq_nil endsLiteralText cs
      rw [hrun] at hnil
      exact hnil
    refine ⟨?_, segmentsSpelled_textSegments value text⟩
    rw [flatMap_textSegments htext]
  | case2 | case3 | case5 => cases h
  | case4 cs value text cs' hrun ref href tail htail ih =>
    cases h
    have htext : value = [] → text = [] := by
      have hnil := @escapedRun_text_eq_nil endsLiteralText cs
      rw [hrun] at hnil
      exact hnil
    obtain ⟨htailText, htailSpelled⟩ := ih htail
    refine ⟨?_, ?_⟩
    · rw [List.flatMap_append, flatMap_textSegments htext, List.flatMap_cons, htailText]
      simp only [List.append_assoc, List.cons_append]
    · intro ref' text' hmem
      rcases List.mem_append.mp hmem with hbefore | hmem
      · exact segmentsSpelled_textSegments value text ref' text' hbefore
      · rcases List.mem_cons.mp hmem with hhere | hafter
        · cases hhere
          exact reference_text href
        · exact htailSpelled ref' text' hafter

/-! ## Any token -/

/-- What the text of a lexeme tells about what it says. The end of a source is no lexeme. -/
def SpelledBy (text : List Char) : TokenKind (List Char) → Prop
  | .ident name => text = name.toList
  | .reference ref => String.ofList text ∈ (Spot.reference ref.path).spellings
  | .literal segments => text = '~' :: (segments.flatMap Prod.snd ++ ['~']) ∧ SegmentsSpelled segments
  | .rbrace => text = ['}']
  | .eof => False
  | _ => True

theorem punctuation_spelledBy {c : Char} {kind : TokenKind (List Char)} (h : punctuation c = some kind) :
    SpelledBy [c] kind := by
  unfold punctuation at h
  split at h <;> cases h <;> first | rfl | trivial

theorem lexeme_spelledBy {c : Char} {cs : List Char} {piece : Piece (TokenKind (List Char))}
    (h : lexeme c cs = .ok piece) : SpelledBy piece.text piece.value := by
  unfold lexeme at h
  split at h
  · split at h
    · cases h
    · cases h
      exact trivial
  · split at h
    · cases h
    · rename_i body hbody
      cases h
      obtain ⟨htext, hspelled⟩ := literalBody_segments hbody
      exact ⟨congrArg ('~' :: ·) htext, hspelled⟩
  · split at h
    · cases h
    · cases h
      exact trivial
  · split at h
    · cases h
    · rename_i ref href
      cases h
      exact reference_text href
  · split at h
    · rename_i kind hkind
      cases h
      exact punctuation_spelledBy hkind
    · split at h
      · cases h
        exact String.toList_ofList.symm
      · cases h

/-- The characters of a lexeme and the blank behind it. -/
def chars (lexeme : Lexeme) : List Char := lexeme.text ++ lexeme.blank

end Lexeme

/-! ## A whole text -/

/-- **The lexemes of a text lie one behind the other**, from its start up to a fault or the end. -/
theorem lexemes_append (cs : List Char) : (lexemes cs).1.flatMap Lexeme.chars <+: cs := by
  fun_induction lexemes cs with
  | case1 => exact List.nil_prefix
  | case2 => exact List.nil_prefix
  | case3 c cs piece hpiece following ih =>
    obtain ⟨more, hmore⟩ := ih
    refine ⟨more, ?_⟩
    rw [List.flatMap_cons, List.append_assoc, hmore, Lexeme.chars, List.append_assoc,
      List.takeWhile_append_dropWhile, (Lexeme.lexeme_readFrom hpiece).append]

theorem lexemes_isPrefix {cs : List Char} {before after : List Lexeme} {lexeme : Lexeme}
    (h : (lexemes cs).1 = before ++ lexeme :: after) : before.flatMap Lexeme.chars ++ lexeme.text <+: cs := by
  apply List.IsPrefix.trans _ (lexemes_append cs)
  refine ⟨lexeme.blank ++ after.flatMap Lexeme.chars, ?_⟩
  rw [h, List.flatMap_append, List.flatMap_cons, Lexeme.chars]
  simp only [List.append_assoc]

/-- Each lexeme was read off the front of some text. -/
theorem exists_of_mem_lexemes {cs : List Char} {lexeme : Lexeme} (h : lexeme ∈ (lexemes cs).1) :
    ∃ c rest piece, Lexeme.lexeme c rest = .ok piece ∧
      lexeme = ⟨piece.value, piece.text, piece.rest.takeWhile Lexeme.isBlank⟩ := by
  fun_induction lexemes cs with
  | case1 | case2 => cases h
  | case3 c cs piece hpiece following ih =>
    rcases List.mem_cons.mp h with rfl | hmore
    · exact ⟨c, cs, piece, hpiece, rfl⟩
    · exact ih hmore

theorem lexemes_spelledBy {cs : List Char} {lexeme : Lexeme} (h : lexeme ∈ (lexemes cs).1) :
    Lexeme.SpelledBy lexeme.text lexeme.kind ∧ lexeme.text ≠ [] := by
  obtain ⟨c, rest, piece, hpiece, rfl⟩ := exists_of_mem_lexemes h
  exact ⟨Lexeme.lexeme_spelledBy hpiece, (Lexeme.lexeme_readFrom hpiece).nonempty⟩

/-- A part that was laid out stands behind those in front of it. -/
theorem mem_layOut {α : Type} {parts : List (α × List Char)} {start : Position} {part : α} {range : Range}
    (h : (part, range) ∈ layOut start parts) :
    ∃ before text after, parts = before ++ (part, text) :: after ∧
      range.start = start.after (before.flatMap Prod.snd) ∧ range.stop = range.start.after text := by
  induction parts generalizing start with
  | nil => cases h
  | cons first parts ih =>
    obtain ⟨other, text⟩ := first
    rcases List.mem_cons.mp h with hfirst | hmore
    · cases hfirst
      exact ⟨[], text, parts, rfl, rfl, rfl⟩
    · obtain ⟨before, text', after, rfl, hstart, hstop⟩ := ih hmore
      refine ⟨(other, text) :: before, text', after, rfl, ?_, hstop⟩
      rw [hstart, List.flatMap_cons, Position.after_append]

/-- A token stands where its lexeme does. -/
theorem mem_tokens {file : Nat} {found : List Lexeme} {start : Position} {token : Token}
    (h : token ∈ Lexeme.tokens file start found) :
    ∃ before lexeme after, found = before ++ lexeme :: after ∧ token.file = file ∧
      token.kind = lexeme.kind.layOut token.range.start ∧
      token.range.start = start.after (before.flatMap Lexeme.chars) ∧
      token.range.stop = token.range.start.after lexeme.text := by
  induction found generalizing start with
  | nil => cases h
  | cons lexeme found ih =>
    rcases List.mem_cons.mp h with rfl | hmore
    · exact ⟨[], lexeme, found, rfl, rfl, rfl, rfl, rfl⟩
    · obtain ⟨before, lexeme', after, rfl, hfile, hkind, hstart, hstop⟩ := ih hmore
      refine ⟨lexeme :: before, lexeme', after, rfl, hfile, hkind, ?_, hstop⟩
      rw [hstart, List.flatMap_cons, Lexeme.chars, Position.after_append, Position.after_append]

/-- A token in front of the end of a source is one of its lexemes. -/
theorem mem_tokens_of_mem_scan {code : String} {file : Nat} {token : Token} (h : token ∈ (scan code file).tokens)
    (heof : token.kind ≠ .eof) :
    token ∈ Lexeme.tokens file (Position.first.after (code.toList.takeWhile Lexeme.isBlank))
      (lexemes (code.toList.dropWhile Lexeme.isBlank)).1 := by
  unfold scan at h
  dsimp only at h
  split at h
  · rcases List.mem_append.mp h with hmem | hlast
    · exact hmem
    · rw [List.mem_singleton.mp hlast] at heof
      exact absurd rfl heof
  · exact h

/-- A token of a source is one of its lexemes, and covers the text of this lexeme behind those in front of it. -/
theorem exists_lexeme_of_mem_scan {code : String} {file : Nat} {token : Token} (h : token ∈ (scan code file).tokens)
    (heof : token.kind ≠ .eof) :
    token.file = file ∧ ∃ before lexeme after,
      (lexemes (code.toList.dropWhile Lexeme.isBlank)).1 = before ++ lexeme :: after ∧
      token.kind = lexeme.kind.layOut token.range.start ∧
      token.range.Covers code (code.toList.takeWhile Lexeme.isBlank ++ before.flatMap Lexeme.chars) lexeme.text := by
  obtain ⟨before, lexeme, after, hfound, hfile, hkind, hstart, hstop⟩ := mem_tokens (mem_tokens_of_mem_scan h heof)
  refine ⟨hfile, before, lexeme, after, hfound, hkind, ?_, ?_, hstop⟩
  · conv_rhs => rw [← List.takeWhile_append_dropWhile (p := Lexeme.isBlank) (l := code.toList)]
    rw [List.append_assoc]
    exact (List.prefix_append_right_inj _).mpr (lexemes_isPrefix hfound)
  · rw [hstart, Position.after_append]

/-- **A token of a source** covers the text of a lexeme, which it is spelled by. -/
theorem covers_of_mem_scan {code : String} {file : Nat} {token : Token} (h : token ∈ (scan code file).tokens)
    (heof : token.kind ≠ .eof) :
    token.file = file ∧ ∃ (front : List Char) (lexeme : Lexeme), token.range.Covers code front lexeme.text ∧
      token.kind = lexeme.kind.layOut token.range.start ∧ Lexeme.SpelledBy lexeme.text lexeme.kind ∧
      lexeme.text ≠ [] := by
  obtain ⟨hfile, before, lexeme, after, hfound, hkind, hcovers⟩ := exists_lexeme_of_mem_scan h heof
  obtain ⟨hspelled, hne⟩ : Lexeme.SpelledBy lexeme.text lexeme.kind ∧ lexeme.text ≠ [] := by
    apply lexemes_spelledBy
    rw [hfound]
    exact List.mem_append_right _ List.mem_cons_self
  exact ⟨hfile, _, lexeme, hcovers, hkind, hspelled, hne⟩

theorem ne_nil_of_mem_spellings {path : Path} {text : List Char}
    (h : String.ofList text ∈ (Spot.reference path).spellings) : text ≠ [] := by
  rintro rfl
  have hempty : ∀ first more : String, String.ofList [] = first ++ more → first = "" := by
    intro first more heq
    exact (String.append_eq_empty_iff.mp heq.symm).1
  unfold Spot.spellings at h
  simp only [List.mem_cons, List.not_mem_nil, or_false, String.append_assoc] at h
  rcases h with h | h | h | h <;> exact absurd (hempty _ _ h) (by decide)

/-- **Every spot of a source stands where one of its spellings does.** -/
theorem scan_spots {code : String} {file : Nat} {token : Token} (htoken : token ∈ (scan code file).tokens)
    {place : Location} {spot : Spot} (h : (place, spot) ∈ token.spots) :
    place.file = file ∧ ∃ (front text : List Char), place.range.Covers code front text ∧ text ≠ [] ∧
      String.ofList text ∈ spot.spellings := by
  have heof : token.kind ≠ .eof := by
    intro heof
    unfold Token.spots at h
    rw [heof] at h
    cases h
  obtain ⟨rfl, front, ⟨kind, text, blank⟩, hcovers, hkind, hspelled, hne⟩ := covers_of_mem_scan htoken heof
  unfold Token.spots at h
  rw [hkind] at h
  cases kind with
  | ident name =>
    cases List.mem_singleton.mp h
    refine ⟨rfl, front, text, hcovers, hne, ?_⟩
    change text = name.toList at hspelled
    rw [hspelled, String.ofList_toList]
    exact List.mem_singleton_self name
  | reference ref =>
    cases List.mem_singleton.mp h
    exact ⟨rfl, front, text, hcovers, hne, hspelled⟩
  | literal segments =>
    obtain ⟨⟨segment, range⟩, hsegment, hspot⟩ := List.mem_filterMap.mp h
    cases segment with
    | text other => cases hspot
    | reference ref =>
      cases hspot
      obtain ⟨htext, hsegments⟩ := hspelled
      obtain ⟨before, inner, after, rfl, hstart, hstop⟩ := mem_layOut hsegment
      have hinner := hsegments ref inner (List.mem_append_right _ List.mem_cons_self)
      refine ⟨rfl, front ++ '~' :: before.flatMap Prod.snd, inner, ⟨?_, ?_, hstop⟩,
        ne_nil_of_mem_spellings hinner, hinner⟩
      · obtain ⟨more, hmore⟩ := hcovers.isPrefix
        refine ⟨after.flatMap Prod.snd ++ '~' :: more, ?_⟩
        change text = _ at htext
        rw [← hmore, htext]
        simp only [List.flatMap_append, List.flatMap_cons, List.append_assoc, List.cons_append, List.nil_append]
      · rw [hstart, hcovers.start, Position.after_append, Position.after_cons, Position.after_cons,
          Position.after_nil]
  | _ => cases h

end HtmlTemplate
