import Mathlib.Data.List.TakeWhile
import HtmlTemplate.Proofs.Blame.Spelling

/-!
# Cutting a text behind a token

A reader of text looks no further than two characters behind what it reads, and notices no more than that some of
them are missing (`Lexeme.Ahead`). So in front of another rest that looks the same to it, it reads the same, and in
front of blank as well, which goes on with no token (`Lexeme.Seam`, `Lexeme.lexeme_cut`). A text that is cut behind a
token has the same tokens up to there, and no fault (`scan_cut`).

## Contents

* `Piece.cut` — a piece in front of another rest;
* `Lexeme.Ahead` — texts that look the same to a reader in front of them;
* `Lexeme.takeWhile_append_of_stop` — runs of characters that what follows does not go on with;
* `Lexeme.Seam` — texts that go on with no token that ends in front of another text;
* `Lexeme.escapedRun_cut`, `path_cut`, `reference_cut`, `literalBody_cut`, `lexeme_cut` — the readers;
* `lexemes_cut`, `scan_cut` — a whole text;
* `scan_eq` — the end of its tokens.
-/

namespace HtmlTemplate

/-- The piece in front of another rest. -/
def Piece.cut {α : Type} (piece : Piece α) (less : List Char) : Piece α := { piece with rest := less }

/-- What is read starts as the text does, whatever follows it. -/
theorem Piece.ReadFrom.exists_of_cons {α : Type} {piece : Piece α} {cs : List Char} (h : piece.ReadFrom cs)
    {less more : List Char} {c : Char} (hmore : piece.text ++ less = c :: more) : ∃ more', cs = c :: more' := by
  cases htext : piece.text with
  | nil => exact absurd htext h.nonempty
  | cons first text =>
    rw [htext] at hmore
    obtain ⟨rfl, -⟩ := List.cons.inj hmore
    exact ⟨text ++ piece.rest, by rw [← h.append, htext]; rfl⟩

namespace Lexeme

variable {cs less : List Char} {p : Char → Bool}

/-! ## Looking ahead -/

/-- The text `less` looks like `rest` to a reader that has come to it: it ends there, or starts with the same character.
    Behind a dot a path may go on and behind a backslash a run, so there the next character is looked at as well. -/
inductive Ahead : (less rest : List Char) → Prop where
  | nil (rest : List Char) : Ahead [] rest
  | cons {c : Char} {less rest : List Char}
    (hnext : c = '.' ∨ c = '\\' → ∀ next ∈ less.head?, next ∈ rest.head?) : Ahead (c :: less) (c :: rest)

namespace Ahead

variable {rest : List Char}

theorem head? (h : Ahead less rest) : ∀ c ∈ less.head?, c ∈ rest.head? := by
  cases h with
  | nil rest => exact nofun
  | cons _ => exact fun _ hc => hc

/-- Text in front of both keeps them alike. -/
theorem append (h : Ahead less rest) : ∀ text : List Char, Ahead (text ++ less) (text ++ rest)
  | [] => h
  | [_] => .cons fun _ => h.head?
  | _ :: _ :: _ => .cons fun _ _ hnext => hnext

theorem of_isPrefix (h : less <+: rest) : Ahead less rest := by
  obtain ⟨more, rfl⟩ := h
  have happend := (Ahead.nil more).append less
  rwa [List.append_nil] at happend

/-- A reader that has come to a delimiter does not look behind it. -/
theorem of_delimiter {c : Char} (hdot : c ≠ '.') (hbackslash : c ≠ '\\') (less rest : List Char) :
    Ahead (c :: less) (c :: rest) :=
  .cons fun hc => (hc.elim hdot hbackslash).elim

/-- Nor does it look behind two characters. -/
theorem of_two (c d : Char) (less rest : List Char) : Ahead (c :: d :: less) (c :: d :: rest) :=
  .cons fun _ _ hnext => hnext

end Ahead

/-! ## Runs of characters -/

/-- What a run of characters ends at does not go on with it. -/
theorem stops_dropWhile (p : Char → Bool) (cs : List Char) : ∀ c ∈ (cs.dropWhile p).head?, p c = false := by
  intro c hc
  have hhead := List.head?_dropWhile_not p cs
  rw [Option.mem_def.mp hc] at hhead
  exact hhead

theorem stops_cons {c : Char} (h : p c = false) : ∀ d ∈ (c :: cs).head?, p d = false := by
  rintro d hd
  cases hd
  exact h

theorem takeWhile_append_of_stop (hcs : ∀ c ∈ cs, p c = true) (hless : ∀ c ∈ less.head?, p c = false) :
    (cs ++ less).takeWhile p = cs := by
  rw [List.takeWhile_append_of_pos hcs]
  cases less with
  | nil => exact List.append_nil cs
  | cons c less =>
    have hc := hless c rfl
    rw [List.takeWhile_cons_of_neg (by simp [hc]), List.append_nil]

theorem dropWhile_append_of_stop (hcs : ∀ c ∈ cs, p c = true) (hless : ∀ c ∈ less.head?, p c = false) :
    (cs ++ less).dropWhile p = less := by
  rw [List.dropWhile_append_of_pos hcs]
  cases less with
  | nil => rfl
  | cons c less =>
    have hc := hless c rfl
    rw [List.dropWhile_cons_of_neg (by simp [hc])]

theorem Ahead.stops (h : Ahead less (cs.dropWhile p)) : ∀ c ∈ less.head?, p c = false :=
  fun c hc => stops_dropWhile p cs c (h.head? c hc)

theorem takeWhile_cut (h : ∀ c ∈ less.head?, p c = false) :
    (cs.takeWhile p ++ less).takeWhile p = cs.takeWhile p :=
  takeWhile_append_of_stop (fun _ hc => List.mem_takeWhile_imp hc) h

theorem dropWhile_cut (h : ∀ c ∈ less.head?, p c = false) : (cs.takeWhile p ++ less).dropWhile p = less :=
  dropWhile_append_of_stop (fun _ hc => List.mem_takeWhile_imp hc) h

/-! ## Seams -/

theorem isNamePart_of_isBlank {c : Char} (h : isBlank c = true) : isNamePart c = false := by
  simp only [isBlank, Bool.or_eq_true, decide_eq_true_eq] at h
  obtain ((rfl | rfl) | rfl) | rfl := h <;> decide

theorem isDigit_of_isBlank {c : Char} (h : isBlank c = true) : c.isDigit = false := by
  simp only [isBlank, Bool.or_eq_true, decide_eq_true_eq] at h
  obtain ((rfl | rfl) | rfl) | rfl := h <;> decide

/-- Behind a token may stand `less` in place of `rest`: it looks the same, or it is blank that keeps the token apart. -/
def Seam (less rest : List Char) : Prop := Ahead less rest ∨ ∀ c ∈ less.head?, isBlank c = true

namespace Seam

/-- A run of characters that ends in front of the one ends in front of the other. -/
theorem stops (h : Seam less (cs.dropWhile p)) (hblank : ∀ c, isBlank c = true → p c = false) :
    ∀ c ∈ less.head?, p c = false := by
  rcases h with h | h
  · exact h.stops
  · exact fun c hc => hblank c (h c hc)

/-- A dot comes next only where one came, and what is behind it looks the same. -/
theorem of_dot {more rest : List Char} (h : Seam ('.' :: more) rest) : Ahead ('.' :: more) rest := by
  rcases h with h | h
  · exact h
  · exact absurd (h '.' rfl) (by decide)

end Seam

theorem escapedRun_cut (stop : Char → Bool) (h : Ahead less (escapedRun stop cs).rest) :
    escapedRun stop ((escapedRun stop cs).text ++ less) = (escapedRun stop cs).cut less := by
  fun_induction escapedRun stop cs with
  | case1 =>
    cases h
    rfl
  | case2 c cs run ih =>
    show escapedRun stop ('\\' :: c :: (run.text ++ less)) = _
    rw [escapedRun, ih h]
    rfl
  | case3 c cs hbackslash hstop =>
    cases h with
    | nil _ => rfl
    | @cons _ less _ hnext =>
      show escapedRun stop (c :: less) = _
      rw [escapedRun, if_pos hstop]
      · rfl
      -- A backslash ends a run where nothing follows it, and then nothing follows it in the other text.
      · rintro next more rfl rfl
        cases cs with
        | nil => cases hnext (.inr rfl) next rfl
        | cons d cs => exact hbackslash d cs rfl rfl
  | case4 c cs hbackslash hstop run ih =>
    have hc : c ≠ '\\' := by
      rintro rfl
      exact hstop rfl
    show escapedRun stop (c :: (run.text ++ less)) = _
    rw [escapedRun, if_neg hstop, ih h]
    · rfl
    · exact fun _ _ hc' _ => hc hc'

theorem commentBody_cut {depth : Nat} {body : Piece (List Char)} (h : commentBody depth cs = some body)
    (less : List Char) : commentBody depth (body.text ++ less) = some (body.cut less) := by
  fun_induction commentBody depth cs generalizing body with
  | case1 => cases h
  | case2 =>
    cases h
    rfl
  | case3 depth cs ih =>
    obtain ⟨inner, hinner, rfl⟩ := Option.map_eq_some_iff.mp h
    show commentBody (depth + 1) ('*' :: '/' :: (inner.text ++ less)) = _
    rw [commentBody, ih hinner]
    rfl
  | case4 depth cs ih =>
    obtain ⟨inner, hinner, rfl⟩ := Option.map_eq_some_iff.mp h
    show commentBody depth ('/' :: '*' :: (inner.text ++ less)) = _
    rw [commentBody, ih hinner]
    · rfl
  | case5 depth c cs hclose hcloseInner hopen ih =>
    obtain ⟨inner, hinner, rfl⟩ := Option.map_eq_some_iff.mp h
    -- The character behind `c` is the same, so that no delimiter comes about.
    have hnext : ∀ {d : Char} {more : List Char}, inner.text ++ less = d :: more → ∃ more', cs = d :: more' :=
      (commentBody_readFrom hinner).exists_of_cons
    show commentBody depth (c :: (inner.text ++ less)) = _
    rw [commentBody, ih hinner]
    · rfl
    · intro more hc hmore
      obtain ⟨more', hcs⟩ := hnext hmore
      exact hopen more' hc hcs
    · intro more hdepth hc hmore
      obtain ⟨more', hcs⟩ := hnext hmore
      exact hclose more' hdepth hc hcs
    · intro depth' more hdepth hc hmore
      obtain ⟨more', hcs⟩ := hnext hmore
      exact hcloseInner depth' more' hdepth hc hcs

/-! ## Paths and references -/

theorem pathSegment_cut {piece : Piece String} (h : pathSegment cs = some piece) (hless : Seam less piece.rest) :
    pathSegment (piece.text ++ less) = some (piece.cut less) := by
  unfold pathSegment at h
  split at h
  · cases h
  · rename_i c cs
    split at h
    · rename_i hc
      cases h
      show pathSegment (c :: (cs.takeWhile isNamePart ++ less)) = _
      unfold pathSegment
      dsimp only
      have hstops := hless.stops fun _ => isNamePart_of_isBlank
      rw [if_pos hc, takeWhile_cut hstops, dropWhile_cut hstops]
      rfl
    · rename_i hc
      split at h
      · rename_i hdigit
        cases h
        show pathSegment (c :: (cs.takeWhile Char.isDigit ++ less)) = _
        unfold pathSegment
        dsimp only
        have hstops := hless.stops fun _ => isDigit_of_isBlank
        rw [if_neg hc, if_pos hdigit, takeWhile_cut hstops, dropWhile_cut hstops]
        rfl
      · cases h

/-- That no segment starts is seen from the first character. -/
theorem pathSegment_eq_none (h : pathSegment cs = none) (hless : ∀ c ∈ less.head?, c ∈ cs.head?) :
    pathSegment less = none := by
  cases less with
  | nil => rfl
  | cons c less =>
    obtain ⟨more, rfl⟩ := List.head?_eq_some_iff.mp (hless c rfl)
    unfold pathSegment at h ⊢
    dsimp only at h ⊢
    split at h
    · cases h
    · rename_i hc
      split at h
      · cases h
      · rename_i hdigit
        rw [if_neg hc, if_neg hdigit]

/-- A path goes on behind its first segment with a dot and another path only. -/
theorem path_eq_some {head : Piece String} (hhead : pathSegment cs = some head)
    (hrest : ∀ more, head.rest = '.' :: more → path more = none) :
    path cs = some ⟨[head.value], head.text, head.rest⟩ := by
  rw [path]
  split
  · rename_i hnone
    cases hhead.symm.trans hnone
  · rename_i other hother
    cases hhead.symm.trans hother
    split
    · rename_i more hmore
      rw [hrest more hmore]
    · rfl

theorem path_eq_some_cons {head : Piece String} {more : List Char} {tail : Piece Path}
    (hhead : pathSegment cs = some head) (hrest : head.rest = '.' :: more) (htail : path more = some tail) :
    path cs = some ⟨head.value :: tail.value, head.text ++ '.' :: tail.text, tail.rest⟩ := by
  rw [path]
  split
  · rename_i hnone
    cases hhead.symm.trans hnone
  · rename_i other hother
    cases hhead.symm.trans hother
    split
    · rename_i more' hmore
      cases hrest.symm.trans hmore
      rw [htail]
    · rename_i hdot
      exact absurd hrest (hdot more)

theorem path_eq_none (h : path cs = none) (hless : ∀ c ∈ less.head?, c ∈ cs.head?) : path less = none := by
  have hnone : pathSegment cs = none := by
    cases hhead : pathSegment cs with
    | none => rfl
    | some head =>
      by_cases hrest : ∀ more, head.rest = '.' :: more → path more = none
      · cases h.symm.trans (path_eq_some hhead hrest)
      · simp only [not_forall] at hrest
        obtain ⟨more, hmore, hsome⟩ := hrest
        obtain ⟨tail, htail⟩ := Option.ne_none_iff_exists'.mp hsome
        cases h.symm.trans (path_eq_some_cons hhead hmore htail)
  rw [path]
  split
  · rfl
  · rename_i head hhead
    cases (pathSegment_eq_none hnone hless).symm.trans hhead

theorem path_cut {piece : Piece Path} (h : path cs = some piece) (hless : Seam less piece.rest) :
    path (piece.text ++ less) = some (piece.cut less) := by
  fun_induction path cs generalizing piece with
  | case1 => cases h
  | case2 cs head hhead cs' hrest hnone =>
    cases h
    apply path_eq_some (pathSegment_cut hhead hless)
    intro more hmore
    -- The dot is still there, and still no path follows it.
    change less = '.' :: more at hmore
    change Seam less head.rest at hless
    rw [hmore, hrest] at hless
    cases hless.of_dot with
    | cons hnext => exact path_eq_none hnone (hnext (.inl rfl))
  | case3 cs head hhead cs' hrest tail htail ih =>
    cases h
    have htailcut := ih htail hless
    have hheadcut : pathSegment (head.text ++ '.' :: (tail.text ++ less)) =
        some (head.cut ('.' :: (tail.text ++ less))) := by
      apply pathSegment_cut hhead
      obtain ⟨c, more, htext⟩ := List.exists_cons_of_ne_nil (path_readFrom htail).nonempty
      rw [hrest, ← (path_readFrom htail).append, htext]
      exact .inl (.of_two '.' c _ _)
    show path ((head.text ++ '.' :: tail.text) ++ less) = _
    rw [List.append_assoc, List.cons_append]
    exact path_eq_some_cons hheadcut rfl htailcut
  | case4 cs head hhead hdot =>
    cases h
    apply path_eq_some (pathSegment_cut hhead hless)
    intro more hmore
    change less = '.' :: more at hmore
    rw [hmore] at hless
    obtain ⟨more', hrest⟩ := List.head?_eq_some_iff.mp (hless.of_dot.head? '.' rfl)
    exact absurd hrest (hdot more')

theorem pathOrGroup_cut {piece : Piece Path} (h : pathOrGroup cs = some piece) (hless : Seam less piece.rest) :
    pathOrGroup (piece.text ++ less) = some (piece.cut less) := by
  have hread := pathOrGroup_readFrom h
  unfold pathOrGroup at h
  split at h
  · split at h
    · cases h
    · rename_i inner hinner
      split at h
      · rename_i rest hrest
        cases h
        have hcut : path (inner.text ++ ')' :: less) = some (inner.cut (')' :: less)) := by
          apply path_cut hinner
          rw [hrest]
          exact .inl (.of_delimiter (by decide) (by decide) less rest)
        show pathOrGroup ('(' :: (inner.text ++ [')'] ++ less)) = _
        rw [List.append_assoc, List.singleton_append]
        simp only [pathOrGroup, hcut]
        rfl
      · cases h
  · rename_i hgroup
    have hcut := path_cut h hless
    unfold pathOrGroup
    split
    · rename_i more hmore
      obtain ⟨more', rfl⟩ := hread.exists_of_cons hmore
      exact absurd rfl (hgroup _)
    · exact hcut

theorem reference_cut {piece : Piece Reference} (h : reference cs = some piece) (hless : Seam less piece.rest) :
    reference (piece.text ++ less) = some (piece.cut less) := by
  have hread := reference_readFrom h
  unfold reference at h
  split at h
  · obtain ⟨path, hpath, rfl⟩ := Option.map_eq_some_iff.mp h
    show reference ('~' :: (path.text ++ less)) = _
    rw [reference, pathOrGroup_cut hpath hless]
    rfl
  · rename_i htilde
    obtain ⟨path, hpath, rfl⟩ := Option.map_eq_some_iff.mp h
    have hcut := pathOrGroup_cut hpath hless
    unfold reference
    split
    · rename_i more hmore
      obtain ⟨more', rfl⟩ := hread.exists_of_cons hmore
      exact absurd rfl (htilde _)
    · rw [hcut]
      rfl

/-! ## Tokens -/

theorem literalBody_end {value text rest : List Char} (h : escapedRun endsLiteralText cs = ⟨value, text, '~' :: rest⟩) :
    literalBody cs = .ok ⟨textSegments value text, text ++ ['~'], rest⟩ := by
  rw [literalBody]
  split
  · rename_i hrun
    cases h.symm.trans hrun
    rfl
  · rename_i hrun
    cases h.symm.trans hrun
  · rename_i hclose _
    exact absurd h (hclose _ _ _)

theorem literalBody_reference {value text more : List Char} {ref : Piece Reference}
    {tail : Piece (List (Segment × List Char))} (h : escapedRun endsLiteralText cs = ⟨value, text, '@' :: more⟩)
    (href : reference more = some ref) (htail : literalBody ref.rest = .ok tail) :
    literalBody cs = .ok ⟨textSegments value text ++ (.reference ref.value, '@' :: ref.text) :: tail.value,
      text ++ '@' :: ref.text ++ tail.text, tail.rest⟩ := by
  rw [literalBody]
  split
  · rename_i hrun
    cases h.symm.trans hrun
  · rename_i hrun
    cases h.symm.trans hrun
    split
    · rename_i hnone
      cases href.symm.trans hnone
    · rename_i hsome
      cases href.symm.trans hsome
      rw [htail]
  · rename_i hopen
    exact absurd h (hopen _ _ _)

/-- The text of a literal ends with its delimiter. -/
theorem literalBody_closed {piece : Piece (List (Segment × List Char))} (h : literalBody cs = .ok piece) :
    ∃ inner, piece.text = inner ++ ['~'] := by
  fun_induction literalBody cs generalizing piece with
  | case1 cs value text rest hrun =>
    cases h
    exact ⟨text, rfl⟩
  | case2 | case3 | case5 => cases h
  | case4 cs value text more hrun ref href tail htail ih =>
    cases h
    obtain ⟨inner, hinner⟩ := ih htail
    exact ⟨text ++ '@' :: ref.text ++ inner, by rw [hinner, List.append_assoc _ inner]⟩

theorem literalBody_cut {piece : Piece (List (Segment × List Char))} (h : literalBody cs = .ok piece)
    (less : List Char) : literalBody (piece.text ++ less) = .ok (piece.cut less) := by
  fun_induction literalBody cs generalizing piece with
  | case1 cs value text rest hrun =>
    cases h
    have hcut : escapedRun endsLiteralText (text ++ '~' :: less) = ⟨value, text, '~' :: less⟩ := by
      have hrunCut := @escapedRun_cut cs ('~' :: less) endsLiteralText
      rw [hrun] at hrunCut
      exact hrunCut (.of_delimiter (by decide) (by decide) less rest)
    show literalBody ((text ++ ['~']) ++ less) = _
    rw [List.append_assoc, List.singleton_append]
    exact literalBody_end hcut
  | case2 | case3 | case5 => cases h
  | case4 cs value text more hrun ref href tail htail ih =>
    cases h
    have htailCut := ih htail
    have htailAhead : Ahead (tail.text ++ less) ref.rest := by
      obtain ⟨inner, hinner⟩ := literalBody_closed htail
      rw [← (literalBody_readFrom htail).append, hinner, List.append_assoc, List.append_assoc]
      exact (Ahead.of_delimiter (by decide) (by decide) less tail.rest).append inner
    have hrefCut := reference_cut href (.inl htailAhead)
    have hcut : escapedRun endsLiteralText (text ++ '@' :: (ref.text ++ (tail.text ++ less))) =
        ⟨value, text, '@' :: (ref.text ++ (tail.text ++ less))⟩ := by
      have hrunCut := @escapedRun_cut cs ('@' :: (ref.text ++ (tail.text ++ less))) endsLiteralText
      rw [hrun, ← (reference_readFrom href).append] at hrunCut
      exact hrunCut (htailAhead.append ('@' :: ref.text))
    show literalBody ((text ++ '@' :: ref.text ++ tail.text) ++ less) = _
    rw [List.append_assoc, List.append_assoc, List.cons_append]
    exact literalBody_reference hcut hrefCut htailCut

theorem quoteBody_cut {piece : Piece (List Char)} (h : quoteBody cs = some piece) (less : List Char) :
    quoteBody (piece.text ++ less) = some (piece.cut less) := by
  unfold quoteBody at h
  split at h
  · rename_i value text rest hrun
    cases h
    have hcut : escapedRun (· = '"') (text ++ '"' :: less) = ⟨value, text, '"' :: less⟩ := by
      have hrunCut := @escapedRun_cut cs ('"' :: less) (· = '"')
      rw [hrun] at hrunCut
      exact hrunCut (.of_delimiter (by decide) (by decide) less rest)
    show quoteBody ((text ++ ['"']) ++ less) = _
    rw [List.append_assoc, List.singleton_append]
    simp only [quoteBody, hcut]
    rfl
  · cases h

theorem lexeme_punctuation {c : Char} {kind : TokenKind (List Char)} (h : punctuation c = some kind) :
    lexeme c cs = .ok ⟨kind, [c], cs⟩ := by
  unfold punctuation at h
  split at h <;> cases h <;> rfl

theorem punctuation_eq_none {c : Char} (h : isNameStart c = true) :
    (punctuation c : Option (TokenKind (List Char))) = none := by
  unfold punctuation
  split <;> first | rfl | exact absurd h (by decide)

theorem lexeme_name {c : Char} (h : isNameStart c = true) :
    lexeme c cs = .ok ⟨.ident (String.ofList (c :: cs.takeWhile isNamePart)), c :: cs.takeWhile isNamePart,
      cs.dropWhile isNamePart⟩ := by
  unfold lexeme
  split
  · exact absurd h (by decide)
  · exact absurd h (by decide)
  · exact absurd h (by decide)
  · exact absurd h (by decide)
  · rw [punctuation_eq_none h]
    exact if_pos h

/-- **A token is read without what follows it.** -/
theorem lexeme_cut {c : Char} {piece : Piece (TokenKind (List Char))} (h : lexeme c cs = .ok piece)
    (hless : Seam less piece.rest) :
    ∃ tail, piece.text = c :: tail ∧ lexeme c (tail ++ less) = .ok (piece.cut less) := by
  unfold lexeme at h
  split at h
  · split at h
    · cases h
    · rename_i body hbody
      cases h
      refine ⟨'*' :: body.text, rfl, ?_⟩
      show lexeme '/' ('*' :: (body.text ++ less)) = _
      simp only [lexeme, commentBody_cut hbody less]
      rfl
  · split at h
    · cases h
    · rename_i body hbody
      cases h
      refine ⟨body.text, rfl, ?_⟩
      simp only [lexeme, literalBody_cut hbody less]
      rfl
  · split at h
    · cases h
    · rename_i body hbody
      cases h
      refine ⟨body.text, rfl, ?_⟩
      simp only [lexeme, quoteBody_cut hbody less]
      rfl
  · split at h
    · cases h
    · rename_i ref href
      cases h
      refine ⟨ref.text, rfl, ?_⟩
      simp only [lexeme, reference_cut href hless]
      rfl
  · split at h
    · rename_i kind hkind
      cases h
      exact ⟨[], rfl, lexeme_punctuation hkind⟩
    · split at h
      · rename_i hname
        cases h
        refine ⟨_, rfl, ?_⟩
        have hstops := hless.stops fun _ => isNamePart_of_isBlank
        rw [lexeme_name hname, takeWhile_cut hstops, dropWhile_cut hstops]
        rfl
      · cases h

end Lexeme

/-! ## A whole text -/

theorem lexemes_cons {c : Char} {cs : List Char} {piece : Piece (TokenKind (List Char))}
    (h : Lexeme.lexeme c cs = .ok piece) :
    lexemes (c :: cs) =
      (⟨piece.value, piece.text, piece.rest.takeWhile Lexeme.isBlank⟩ ::
        (lexemes (piece.rest.dropWhile Lexeme.isBlank)).1, (lexemes (piece.rest.dropWhile Lexeme.isBlank)).2) := by
  rw [lexemes]
  split
  · rename_i herror
    cases h.symm.trans herror
  · rename_i other hother
    cases h.symm.trans hother
    rfl

theorem lexemes_eq_cons {cs : List Char} {lexeme : Lexeme} {more : List Lexeme} (h : (lexemes cs).1 = lexeme :: more) :
    ∃ c rest piece, cs = c :: rest ∧ Lexeme.lexeme c rest = .ok piece ∧
      lexeme = ⟨piece.value, piece.text, piece.rest.takeWhile Lexeme.isBlank⟩ ∧
      (lexemes (piece.rest.dropWhile Lexeme.isBlank)).1 = more := by
  cases cs with
  | nil =>
    rw [lexemes] at h
    cases h
  | cons c rest =>
    rw [lexemes] at h
    split at h
    · cases h
    · rename_i piece hpiece
      obtain ⟨hlexeme, hmore⟩ := List.cons.inj h
      exact ⟨c, rest, piece, rfl, hpiece, hlexeme.symm, hmore⟩

/-- **A text that is cut behind a lexeme has the lexemes up to there**, and no fault. -/
theorem lexemes_cut {cs : List Char} {before after : List Lexeme} {lexeme : Lexeme}
    (h : (lexemes cs).1 = before ++ lexeme :: after) :
    lexemes (before.flatMap Lexeme.chars ++ lexeme.text) = (before ++ [{ lexeme with blank := [] }], none) := by
  -- By induction on the lexemes in front: the first of them is read from the shorter text as well.
  induction before generalizing cs with
  | nil =>
    obtain ⟨c, rest, piece, rfl, hpiece, rfl, -⟩ := lexemes_eq_cons h
    obtain ⟨tail, htext, hcut⟩ := Lexeme.lexeme_cut hpiece (.inl (.nil _))
    rw [List.append_nil] at hcut
    show lexemes piece.text = _
    rw [htext, lexemes_cons hcut]
    show (_ :: (lexemes []).1, (lexemes []).2) = _
    rw [lexemes, ← htext]
    rfl
  | cons first before ih =>
    rw [List.cons_append] at h
    obtain ⟨c, rest, piece, rfl, hpiece, rfl, hmore⟩ := lexemes_eq_cons h
    have hmoreCut := ih hmore
    have hfront := lexemes_isPrefix hmore
    have hrest : piece.rest.takeWhile Lexeme.isBlank ++ (before.flatMap Lexeme.chars ++ lexeme.text) <+:
        piece.rest := by
      conv_rhs => rw [← List.takeWhile_append_dropWhile (p := Lexeme.isBlank) (l := piece.rest)]
      exact (List.prefix_append_right_inj _).mpr hfront
    obtain ⟨tail, htext, hcut⟩ := Lexeme.lexeme_cut hpiece (.inl (.of_isPrefix hrest))
    rw [List.flatMap_cons, Lexeme.chars, List.append_assoc, List.append_assoc]
    show lexemes (piece.text ++ _) = _
    rw [htext, List.cons_append, lexemes_cons hcut, ← htext]
    unfold Piece.cut
    have hstops := (Lexeme.Ahead.of_isPrefix hfront).stops
    rw [Lexeme.takeWhile_cut hstops, Lexeme.dropWhile_cut hstops, hmoreCut]
    rfl

/-- The tokens of lexemes are cut with them. -/
theorem Lexeme.tokens_eq_append {file : Nat} {start : Position} {found : List Lexeme} {front later : List Token}
    {token : Token} (h : Lexeme.tokens file start found = front ++ token :: later) :
    ∃ before lexeme after, found = before ++ lexeme :: after ∧
      Lexeme.tokens file start (before ++ [{ lexeme with blank := [] }]) = front ++ [token] ∧
      token.range.stop = start.after (before.flatMap Lexeme.chars ++ lexeme.text) ∧
      Lexeme.behind start (before ++ [{ lexeme with blank := [] }]) = token.range.stop := by
  induction front generalizing found start with
  | nil =>
    cases found with
    | nil => cases h
    | cons lexeme found =>
      obtain ⟨rfl, -⟩ := List.cons.inj h
      exact ⟨[], lexeme, found, rfl, rfl, rfl, rfl⟩
  | cons first front ih =>
    cases found with
    | nil => cases h
    | cons lexeme found =>
      obtain ⟨rfl, hmore⟩ := List.cons.inj h
      obtain ⟨before, last, after, rfl, htokens, hstop, hbehind⟩ := ih hmore
      refine ⟨lexeme :: before, last, after, rfl, ?_, ?_, hbehind⟩
      · exact congrArg (_ :: ·) htokens
      · rw [hstop, List.flatMap_cons, Lexeme.chars]
        simp only [Position.after_append]

/-- The tokens in front of the end of a source are those of its lexemes. -/
theorem scan_tokens_eq_append {code : String} {file : Nat} {front later : List Token} {token : Token}
    (h : (scan code file).tokens = front ++ token :: later) (heof : token.kind ≠ .eof) :
    ∃ later', Lexeme.tokens file (Position.first.after (code.toList.takeWhile Lexeme.isBlank))
      (lexemes (code.toList.dropWhile Lexeme.isBlank)).1 = front ++ token :: later' := by
  unfold scan at h
  dsimp only at h
  split at h
  · dsimp only at h
    obtain rfl | ⟨later', last, rfl⟩ := List.eq_nil_or_concat later
    · obtain ⟨-, hlast⟩ := List.append_inj' h rfl
      obtain ⟨rfl, -⟩ := List.cons.inj hlast
      exact absurd rfl heof
    · rw [List.concat_eq_append, ← List.cons_append, ← List.append_assoc] at h
      obtain ⟨htokens, -⟩ := List.append_inj' h rfl
      exact ⟨later', htokens⟩
  · exact ⟨later, h⟩

/-- **A source that is cut behind a token has the tokens up to there**, and no fault. -/
theorem scan_cut {code : String} {file : Nat} {front later : List Token} {token : Token}
    (h : (scan code file).tokens = front ++ token :: later) (heof : token.kind ≠ .eof) :
    ∃ kept : String, kept.toList <+: code.toList ∧ Position.first.after kept.toList = token.range.stop ∧
      scan kept file = ⟨front ++ [token, ⟨.eof, ⟨token.range.stop, token.range.stop⟩, file⟩], none⟩ := by
  obtain ⟨later', htokens⟩ := scan_tokens_eq_append h heof
  obtain ⟨before, lexeme, after, hfound, hcut, hstop, hbehind⟩ := Lexeme.tokens_eq_append htokens
  have hfront := lexemes_isPrefix hfound
  refine ⟨String.ofList (code.toList.takeWhile Lexeme.isBlank ++ (before.flatMap Lexeme.chars ++ lexeme.text)),
    ?_, ?_, ?_⟩
  · rw [String.toList_ofList]
    conv_rhs => rw [← List.takeWhile_append_dropWhile (p := Lexeme.isBlank) (l := code.toList)]
    exact (List.prefix_append_right_inj _).mpr hfront
  · rw [hstop, String.toList_ofList, Position.after_append]
  · unfold scan
    have hstops := (Lexeme.Ahead.of_isPrefix hfront).stops
    rw [String.toList_ofList, Lexeme.takeWhile_cut hstops, Lexeme.dropWhile_cut hstops, lexemes_cut hfound]
    dsimp only
    rw [hcut, hbehind, List.append_assoc]
    rfl

/-! ## The end of the tokens -/

theorem Lexeme.behind_eq_after (start : Position) (found : List Lexeme) :
    Lexeme.behind start found = start.after (found.flatMap Lexeme.chars) := by
  induction found generalizing start with
  | nil => rfl
  | cons lexeme found ih =>
    rw [List.flatMap_cons, Lexeme.chars, Position.after_append, Position.after_append]
    exact ih _

/-- A lexeme is not the end of a source. -/
theorem ne_eof_of_mem_tokens {cs : List Char} {file : Nat} {start : Position} {token : Token}
    (h : token ∈ Lexeme.tokens file start (lexemes cs).1) : token.kind ≠ .eof := by
  obtain ⟨before, ⟨kind, text, blank⟩, after, hfound, -, hkind, -, -⟩ := mem_tokens h
  have hmem : ⟨kind, text, blank⟩ ∈ (lexemes cs).1 := by
    rw [hfound]
    exact List.mem_append_right _ List.mem_cons_self
  obtain ⟨hspelled, -⟩ := lexemes_spelledBy hmem
  intro heof
  rw [heof] at hkind
  cases kind with
  | eof => exact hspelled
  | _ => cases hkind

theorem stop_le_of_mem_tokens {found : List Lexeme} {file : Nat} {start : Position} {token : Token}
    (h : token ∈ Lexeme.tokens file start found) (more : List Char) :
    token.range.stop ≤ (Lexeme.behind start found).after more := by
  obtain ⟨before, lexeme, after, rfl, -, -, hstart, hstop⟩ := mem_tokens h
  have hbehind : (Lexeme.behind start (before ++ lexeme :: after)).after more =
      token.range.stop.after (lexeme.blank ++ (after.flatMap Lexeme.chars ++ more)) := by
    rw [Lexeme.behind_eq_after, hstop, hstart, List.flatMap_append, List.flatMap_cons, Lexeme.chars]
    simp only [Position.after_append]
  rw [hbehind]
  exact Position.le_after _ _

/-- **The tokens of a source end** with its end, or all of them in front of a fault. -/
theorem scan_eq (code : String) (file : Nat) :
    (∃ (inner : List Token) (eof : Position), scan code file = ⟨inner ++ [⟨.eof, ⟨eof, eof⟩, file⟩], none⟩ ∧
      ∀ token ∈ inner, token.kind ≠ .eof) ∨
    ∃ (tokens : List Token) (cause : ScanFault) (place : Location),
      scan code file = ⟨tokens, some (.fault cause place)⟩ ∧ (∀ token ∈ tokens, token.kind ≠ .eof) ∧
      ∀ token ∈ tokens, token.range.stop ≤ place.range.start := by
  unfold scan
  dsimp only
  split
  · exact .inl ⟨_, _, rfl, fun token => ne_eof_of_mem_tokens⟩
  · exact .inr ⟨_, _, _, rfl, fun token => ne_eof_of_mem_tokens, fun token h => stop_le_of_mem_tokens h _⟩

end HtmlTemplate
