import HtmlTemplate.Proofs.Token.Quoting

/-!
# Tokens with blank between them

Blank goes on with no token. So any texts that are tokens by themselves are these tokens again when they are put one
behind the other with blank between them, whatever blank that is and however the tokens stood before
(`lexemes_apart`, `tokenize_apart`).

## Contents

* `contents` — what tokens say;
* `Lexeme.StandsAlone` — texts that are read as one token in front of blank;
* `standsAlone_of_mem_lexemes` — the lexemes of a text are such;
* `lexemes_apart`, `tokenize_apart` — texts with blank between them.
-/

namespace HtmlTemplate

/-! ## What tokens say -/

/-- What some tokens say, wherever they stand. -/
def contents (tokens : List Token) : List (TokenKind Unit) := tokens.map fun token => token.kind.map fun _ => ()

theorem contents_append (tokens more : List Token) : contents (tokens ++ more) = contents tokens ++ contents more :=
  List.map_append

/-- The tokens of lexemes say what these say. -/
theorem contents_tokens (file : Nat) (start : Position) (found : List Lexeme) :
    contents (Lexeme.tokens file start found) = found.map fun lexeme => lexeme.kind.map fun _ => () := by
  induction found generalizing start with
  | nil => rfl
  | cons lexeme found ih =>
    have hmore := ih ((start.after lexeme.text).after lexeme.blank)
    rw [List.map_cons, ← hmore, ← TokenKind.map_layOut start]
    rfl

/-! ## Texts that are tokens by themselves -/

namespace Lexeme

/-- The text is read as the token in front of blank, and where nothing follows. -/
def StandsAlone (lexeme : Lexeme) : Prop :=
  ∃ c tail, lexeme.text = c :: tail ∧ isBlank c = false ∧
    ∀ rest : List Char, (∀ d ∈ rest.head?, isBlank d = true) →
      Lexeme.lexeme c (tail ++ rest) = .ok ⟨lexeme.kind, lexeme.text, rest⟩

/-- No token starts with blank. -/
theorem isBlank_of_lexeme {c : Char} {cs : List Char} {piece : Piece (TokenKind (List Char))}
    (h : lexeme c cs = .ok piece) : isBlank c = false := by
  rw [Bool.eq_false_iff]
  intro hblank
  simp only [isBlank, Bool.or_eq_true, decide_eq_true_eq] at hblank
  obtain ((rfl | rfl) | rfl) | rfl := hblank <;> cases h

end Lexeme

/-- The lexemes of a text are tokens by themselves. -/
theorem standsAlone_of_mem_lexemes {cs : List Char} {lexeme : Lexeme} (h : lexeme ∈ (lexemes cs).1) :
    lexeme.StandsAlone := by
  obtain ⟨c, rest, piece, hpiece, rfl⟩ := exists_of_mem_lexemes h
  obtain ⟨tail, htext, -⟩ := Lexeme.lexeme_cut hpiece (.inl (.nil _))
  refine ⟨c, tail, htext, Lexeme.isBlank_of_lexeme hpiece, fun less hless => ?_⟩
  obtain ⟨tail', htext', hread⟩ := Lexeme.lexeme_cut hpiece (.inr hless)
  obtain rfl : tail = tail' := (List.cons.inj (htext.symm.trans htext')).2
  exact hread

/-! ## Texts with blank between them -/

/-- There is blank behind the lexemes, and all but the last are kept apart by it from what follows. -/
structure Lexeme.Apart (found : List Lexeme) : Prop where
  standsAlone : ∀ lexeme ∈ found, lexeme.StandsAlone
  blank : ∀ lexeme ∈ found, ∀ c ∈ lexeme.blank, Lexeme.isBlank c = true
  nonempty : ∀ lexeme ∈ found.dropLast, lexeme.blank ≠ []

namespace Lexeme.Apart

variable {lexeme : Lexeme} {found : List Lexeme}

theorem tail (h : Apart (lexeme :: found)) : Apart found where
  standsAlone other hmem := h.standsAlone other (List.mem_cons_of_mem _ hmem)
  blank other hmem := h.blank other (List.mem_cons_of_mem _ hmem)
  nonempty other hmem := by
    apply h.nonempty
    rw [List.dropLast_cons_of_ne_nil (List.ne_nil_of_mem (List.dropLast_subset found hmem))]
    exact List.mem_cons_of_mem _ hmem

/-- What comes first is no blank. -/
theorem head_chars (h : Apart found) : ∀ c ∈ (found.flatMap Lexeme.chars).head?, isBlank c = false := by
  cases found with
  | nil => exact nofun
  | cons lexeme found =>
    obtain ⟨c, tail, htext, hc, -⟩ := h.standsAlone lexeme List.mem_cons_self
    rw [List.flatMap_cons, Lexeme.chars, htext]
    exact Lexeme.stops_cons hc

/-- Blank follows the first lexeme, or nothing does. -/
theorem blank_behind (h : Apart (lexeme :: found)) :
    ∀ c ∈ (lexeme.blank ++ found.flatMap Lexeme.chars).head?, isBlank c = true := by
  have hblank := h.blank lexeme List.mem_cons_self
  cases hchars : lexeme.blank with
  | cons c blank =>
    rintro d hd
    cases hd
    exact hblank c (by rw [hchars]; exact List.mem_cons_self)
  | nil =>
    cases found with
    | nil => exact nofun
    | cons next found =>
      have hnonempty := h.nonempty lexeme (by simp)
      exact absurd hchars hnonempty

end Lexeme.Apart

/-- **Lexemes are read again** from their texts and blank between them. -/
theorem lexemes_apart {found : List Lexeme} (h : Lexeme.Apart found) :
    lexemes (found.flatMap Lexeme.chars) = (found, none) := by
  induction found with
  | nil => rw [List.flatMap_nil, lexemes]
  | cons lexeme found ih =>
    -- The lexeme is read up to its blank, and the blank up to the next lexeme.
    have hblank := h.blank lexeme List.mem_cons_self
    obtain ⟨c, tail, htext, -, hread⟩ := h.standsAlone lexeme List.mem_cons_self
    rw [List.flatMap_cons, Lexeme.chars, List.append_assoc, htext, List.cons_append,
      lexemes_cons (hread _ h.blank_behind)]
    dsimp only
    rw [Lexeme.takeWhile_append_of_stop hblank h.tail.head_chars,
      Lexeme.dropWhile_append_of_stop hblank h.tail.head_chars, ih h.tail]

/-- **The tokens of texts with blank between them** say what the texts say by themselves. -/
theorem tokenize_apart {front : List Char} (hfront : ∀ c ∈ front, Lexeme.isBlank c = true) {found : List Lexeme}
    (h : Lexeme.Apart found) (file : Nat) :
    ∃ tokens, tokenize (String.ofList (front ++ found.flatMap Lexeme.chars)) file = .ok tokens ∧
      contents tokens = found.map (fun lexeme => lexeme.kind.map fun _ => ()) ++ [.eof] := by
  let start := Position.first.after front
  let behind := Lexeme.behind start found
  refine ⟨Lexeme.tokens file start found ++ [⟨.eof, ⟨behind, behind⟩, file⟩], ?_, ?_⟩
  · unfold tokenize scan
    rw [String.toList_ofList, Lexeme.takeWhile_append_of_stop hfront h.head_chars,
      Lexeme.dropWhile_append_of_stop hfront h.head_chars, lexemes_apart h]
  · rw [contents_append, contents_tokens]
    rfl

end HtmlTemplate
