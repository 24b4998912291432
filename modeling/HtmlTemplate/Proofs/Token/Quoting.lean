import Mathlib.Data.List.Chain
import HtmlTemplate.Proofs.Token.Faults

/-!
# Quoting

Any text can be written in a literal or in a quote: a backslash goes in front of each character that would end the run
of text, and in front of each backslash. References are written in parentheses, so that nothing behind them can go on
with their paths. What is written in this way is read again, whatever follows (`Lexeme.lexeme_printLiteral`,
`Lexeme.lexeme_printQuote`). Only a text that is empty, or two texts with nothing in between, could not be told apart
from others, and the reader never makes such segments (`Lexeme.literalBody_isLiteral`).

## Contents

* `escaped`, `printLiteral`, `printQuote` — how text, literals and quotes are written;
* `IsLiteral` — the segments that a literal can have;
* `ReadsAs` — texts that are read as one token whatever follows;
* `Lexeme.escapedRun_escaped`, `literalBody_printed`, `quoteBody_escaped` — the readers;
* `readsAs_printLiteral`, `readsAs_printQuote` — a whole source.
-/

namespace HtmlTemplate

/-! ## Writing literals and quotes -/

/-- The text with a backslash in front of each backslash, and of each character for which `stop` holds. -/
def escaped (stop : Char → Bool) (text : List Char) : List Char :=
  text.flatMap fun c => if c = '\\' || stop c then ['\\', c] else [c]

/-- The segment as it is written in a literal. -/
def Segment.printed : Segment → List Char
  | .text content => escaped Lexeme.endsLiteralText content.toList
  | .reference ref => ref.display.toList

/-- The segments with the delimiters of a literal. -/
def printLiteral (segments : List Segment) : List Char := '~' :: (segments.flatMap Segment.printed ++ ['~'])

/-- The text with the delimiters of a quote. -/
def printQuote (text : String) : List Char := '"' :: (escaped (· = '"') text.toList ++ ['"'])

/-- The segment is text. -/
def Segment.isText : Segment → Bool
  | .text _ => true
  | .reference _ => false

/-- The segments are those of a literal: no text is empty, there is a reference between any two of them, and references
    have paths. -/
structure IsLiteral (segments : List Segment) : Prop where
  texts : ∀ content, .text content ∈ segments → content ≠ ""
  apart : segments.IsChain fun segment next => segment.isText = true → next.isText = false
  paths : ∀ ref, .reference ref ∈ segments → ref.path.IsProper

/-- Whatever follows the text, the source starts with one token that says this and that the text is the place of. -/
def ReadsAs (text : List Char) (content : TokenKind Unit) : Prop :=
  ∀ (rest : List Char) (file : Nat), ∃ (token : Token) (later : List Token),
    (scan (String.ofList (text ++ rest)) file).tokens = token :: later ∧
      token.kind.map (fun _ => ()) = content ∧ token.range = ⟨.first, Position.first.after text⟩

namespace IsLiteral

variable {segment : Segment} {segments : List Segment}

theorem tail (h : IsLiteral (segment :: segments)) : IsLiteral segments where
  texts content hmem := h.texts content (List.mem_cons_of_mem _ hmem)
  apart := h.apart.of_cons
  paths ref hmem := h.paths ref (List.mem_cons_of_mem _ hmem)

/-- No text follows a text. -/
theorem head_tail {content : String} (h : IsLiteral (.text content :: segments)) :
    ∀ next ∈ segments.head?, next.isText = false := by
  intro next hnext
  exact (List.isChain_cons.mp h.apart).1 next hnext rfl

end IsLiteral

namespace Lexeme

variable {stop : Char → Bool}

/-! ## Reading what is written -/

theorem escapedRun_escaped (text : List Char) {c : Char} (hstop : stop c = true) (hc : c ≠ '\\') (rest : List Char) :
    escapedRun stop (escaped stop text ++ c :: rest) = ⟨text, escaped stop text, c :: rest⟩ := by
  induction text with
  | nil => exact escapedRun_stop hstop hc
  | cons first text ih =>
    have hcons : escaped stop (first :: text) =
        (if first = '\\' || stop first then ['\\', first] else [first]) ++ escaped stop text := List.flatMap_cons
    rw [hcons]
    by_cases hfirst : first = '\\' || stop first
    · rw [if_pos hfirst]
      show escapedRun stop ('\\' :: first :: (escaped stop text ++ c :: rest)) = _
      rw [escapedRun, ih]
      rfl
    · rw [if_neg hfirst]
      rw [Bool.or_eq_true, not_or, decide_eq_true_eq, Bool.not_eq_true] at hfirst
      show escapedRun stop (first :: (escaped stop text ++ c :: rest)) = _
      rw [escapedRun_char hfirst.2 hfirst.1, ih]
      rfl

theorem quoteBody_escaped (text rest : List Char) :
    quoteBody (escaped (· = '"') text ++ '"' :: rest) = some ⟨text, escaped (· = '"') text ++ ['"'], rest⟩ := by
  unfold quoteBody
  rw [escapedRun_escaped text rfl (by decide)]
  rfl

theorem textSegments_toList {content : String} (h : content ≠ "") (text : List Char) :
    textSegments content.toList text = [(.text content, text)] := by
  unfold textSegments
  rw [if_neg, String.ofList_toList]
  exact fun hnil => h (String.toList_eq_nil_iff.mp hnil)

/-- Segments are read again, behind some text of which nothing more comes. -/
theorem literalBody_printed {segments : List Segment} (h : IsLiteral segments) (text rest : List Char)
    (htext : text ≠ [] → ∀ next ∈ segments.head?, next.isText = false) :
    literalBody (escaped endsLiteralText text ++ (segments.flatMap Segment.printed ++ '~' :: rest)) =
      .ok ⟨textSegments text (escaped endsLiteralText text) ++ segments.map fun segment => (segment, segment.printed),
        escaped endsLiteralText text ++ (segments.flatMap Segment.printed ++ ['~']), rest⟩ := by
  -- By induction on the segments: a text segment becomes the text in front of the others.
  induction segments generalizing text with
  | nil =>
    rw [List.map_nil, List.append_nil]
    exact literalBody_end (escapedRun_escaped text rfl (by decide) rest)
  | cons segment segments ih =>
    cases segment with
    | text content =>
      obtain rfl : text = [] := by
        by_contra hne
        exact Bool.noConfusion (htext hne _ rfl)
      have hcontent : content ≠ "" := h.texts content List.mem_cons_self
      have hmore := ih h.tail content.toList fun _ => h.head_tail
      rw [textSegments_toList hcontent] at hmore
      rw [List.flatMap_cons, List.append_assoc, List.append_assoc]
      exact hmore
    | reference ref =>
      obtain ⟨inner, hdisplay, href⟩ := reference_display (h.paths ref List.mem_cons_self)
        (segments.flatMap Segment.printed ++ '~' :: rest)
      have hmore := ih h.tail [] fun hne => absurd rfl hne
      have hrun : escapedRun endsLiteralText (escaped endsLiteralText text ++
          '@' :: (inner ++ (segments.flatMap Segment.printed ++ '~' :: rest))) = ⟨text, _, _⟩ :=
        escapedRun_escaped text rfl (by decide) _
      have hprinted : (Segment.reference ref).printed = '@' :: inner := hdisplay
      rw [List.flatMap_cons, hprinted, List.map_cons, hprinted, List.append_assoc, List.cons_append,
        literalBody_reference hrun href hmore]
      simp [escaped, textSegments]

/-! ## What is read can be written -/

theorem isLiteral_textSegments (value text : List Char) : IsLiteral ((textSegments value text).map Prod.fst) := by
  unfold textSegments
  split
  · exact ⟨nofun, .nil, nofun⟩
  · rename_i hvalue
    refine ⟨?_, .singleton _, ?_⟩
    · intro content hmem
      cases List.mem_singleton.mp hmem
      intro hempty
      exact hvalue (String.toList_ofList.symm.trans (congrArg String.toList hempty))
    · intro ref hmem
      cases List.mem_singleton.mp hmem

/-- **The segments that are read from a literal** are some that can be written. -/
theorem literalBody_isLiteral {cs : List Char} {piece : Piece (List (Segment × List Char))}
    (h : literalBody cs = .ok piece) : IsLiteral (piece.value.map Prod.fst) := by
  fun_induction literalBody cs generalizing piece with
  | case1 cs value text rest =>
    cases h
    exact isLiteral_textSegments value text
  | case2 | case3 | case5 => cases h
  | case4 cs value text more hrun ref href tail htail ih =>
    cases h
    have hfront := isLiteral_textSegments value text
    have hback := ih htail
    rw [List.map_append, List.map_cons]
    refine ⟨?_, ?_, ?_⟩
    · intro content hmem
      rcases List.mem_append.mp hmem with hmem | hmem
      · exact hfront.texts content hmem
      · rcases List.mem_cons.mp hmem with hmem | hmem
        · cases hmem
        · exact hback.texts content hmem
    · have hreference : ∀ next : Segment, (Segment.reference ref.value).isText = true → next.isText = false :=
        fun _ htext => Bool.noConfusion htext
      have hbehind := List.isChain_cons.mpr ⟨fun next _ => hreference next, hback.apart⟩
      refine List.isChain_append.mpr ⟨hfront.apart, hbehind, ?_⟩
      rintro _ - next hnext -
      cases hnext
      rfl
    · intro ref' hmem
      rcases List.mem_append.mp hmem with hmem | hmem
      · exact hfront.paths ref' hmem
      · rcases List.mem_cons.mp hmem with hmem | hmem
        · cases hmem
          exact reference_isProper href
        · exact hback.paths ref' hmem

theorem lexeme_isLiteral {c : Char} {cs : List Char} {piece : Piece (TokenKind (List Char))}
    (h : lexeme c cs = .ok piece) {segments : List (Segment × List Char)} (hkind : piece.value = .literal segments) :
    IsLiteral (segments.map Prod.fst) := by
  unfold lexeme at h
  split at h
  · split at h <;> cases h
    cases hkind
  · split at h
    · cases h
    · rename_i body hbody
      cases h
      cases hkind
      exact literalBody_isLiteral hbody
  · split at h <;> cases h
    cases hkind
  · split at h <;> cases h
    cases hkind
  · split at h
    · rename_i kind hpunctuation
      cases h
      obtain rfl : kind = .literal segments := hkind
      unfold punctuation at hpunctuation
      split at hpunctuation <;> cases hpunctuation
    · split at h <;> cases h
      cases hkind

/-! ## Tokens -/

theorem lexeme_printLiteral {segments : List Segment} (h : IsLiteral segments) (rest : List Char) :
    lexeme '~' (segments.flatMap Segment.printed ++ ['~'] ++ rest) =
      .ok ⟨.literal (segments.map fun segment => (segment, segment.printed)), printLiteral segments, rest⟩ := by
  have hbody : literalBody (segments.flatMap Segment.printed ++ '~' :: rest) = .ok ⟨_, _, rest⟩ :=
    literalBody_printed h [] rest fun hne => absurd rfl hne
  rw [List.append_assoc, List.singleton_append]
  simp only [lexeme, hbody]
  rfl

theorem lexeme_printQuote (text : String) (rest : List Char) :
    lexeme '"' (escaped (· = '"') text.toList ++ ['"'] ++ rest) = .ok ⟨.quote text, printQuote text, rest⟩ := by
  rw [List.append_assoc, List.singleton_append]
  simp only [lexeme, quoteBody_escaped, String.ofList_toList]
  rfl

end Lexeme

/-! ## A whole source -/

/-- What a token says does not depend on where it stands. -/
theorem TokenKind.map_layOut (start : Position) (kind : TokenKind (List Char)) :
    (kind.layOut start).map (fun _ => ()) = kind.map fun _ => () := by
  have hsegments : ∀ (start : Position) (segments : List (Segment × List Char)),
      (HtmlTemplate.layOut start segments).map (fun segment => (segment.1, ())) =
        segments.map fun segment => (segment.1, ()) := by
    intro start segments
    induction segments generalizing start with
    | nil => rfl
    | cons segment segments ih => exact congrArg (_ :: ·) (ih _)
  cases kind with
  | literal segments => exact congrArg TokenKind.literal (hsegments _ segments)
  | _ => rfl

/-- What is read as a token whatever follows is the first token of any source that starts with it. -/
theorem readsAs_of_lexeme {c : Char} {cs : List Char} {kind : TokenKind (List Char)} (hblank : Lexeme.isBlank c = false)
    (h : ∀ rest, Lexeme.lexeme c (cs ++ rest) = .ok ⟨kind, c :: cs, rest⟩) :
    ReadsAs (c :: cs) (kind.map fun _ => ()) := by
  intro rest file
  have hnot : ¬ Lexeme.isBlank c = true := by simp [hblank]
  have hread := lexemes_cons (h rest)
  unfold scan
  rw [String.toList_ofList, List.cons_append, List.takeWhile_cons_of_neg hnot, List.dropWhile_cons_of_neg hnot, hread]
  dsimp only
  split
  · exact ⟨_, _, rfl, TokenKind.map_layOut _ kind, rfl⟩
  · exact ⟨_, _, rfl, TokenKind.map_layOut _ kind, rfl⟩

/-- **A literal that is written out is read again** whatever follows it. -/
theorem readsAs_printLiteral {segments : List Segment} (h : IsLiteral segments) :
    ReadsAs (printLiteral segments) (.literal (segments.map fun segment => (segment, ()))) := by
  have hreads := readsAs_of_lexeme rfl (Lexeme.lexeme_printLiteral h)
  rw [TokenKind.map, List.map_map] at hreads
  exact hreads

/-- **Any text can be quoted.** -/
theorem readsAs_printQuote (text : String) : ReadsAs (printQuote text) (.quote text) :=
  readsAs_of_lexeme rfl (Lexeme.lexeme_printQuote text)

/-- The literals of a source have segments that can be written. -/
theorem isLiteral_of_mem_scan {code : String} {file : Nat} {token : Token} (h : token ∈ (scan code file).tokens)
    {segments : List (Segment × Range)} (hkind : token.kind = .literal segments) :
    IsLiteral (segments.map Prod.fst) := by
  have heof : token.kind ≠ .eof := by
    rw [hkind]
    exact nofun
  obtain ⟨-, before, lexeme, after, hfound, hlayOut, -⟩ := exists_lexeme_of_mem_scan h heof
  have hmem : lexeme ∈ (lexemes (code.toList.dropWhile Lexeme.isBlank)).1 := by
    rw [hfound]
    exact List.mem_append_right _ List.mem_cons_self
  obtain ⟨c, rest, piece, hpiece, rfl⟩ := exists_of_mem_lexemes hmem
  have hcontent := TokenKind.map_layOut token.range.start piece.value
  rw [← hlayOut, hkind] at hcontent
  cases hvalue : piece.value with
  | literal parts =>
    rw [hvalue] at hcontent
    have hparts : segments.map Prod.fst = parts.map Prod.fst := by
      simpa [Function.comp_def] using congrArg (List.map Prod.fst) (TokenKind.literal.inj hcontent)
    rw [hparts]
    exact Lexeme.lexeme_isLiteral hpiece hvalue
  | _ =>
    rw [hvalue] at hcontent
    cases hcontent

end HtmlTemplate
