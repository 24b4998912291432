import HtmlTemplate.Proofs.Token.Apart

/-!
# Tokens that are shown

A token is shown without the backslashes that it may have been written with, and its references are shown in
parentheses. Where there are no backslashes, what is shown of a token is a token by itself that says the same: most
tokens are shown as they are written, and literals and references in a way that no other text can go on with. So the
tokens of a source can be read from what is shown of them with a space between any two.

## Contents

* `Lexeme.escapedRun_plain`, `literalBody_plain` — text without backslashes holds no delimiters;
* `Lexeme.shown` — a lexeme as it is shown, with a space behind it;
* `Lexeme.StandsAlone.shown` — what is shown is a token by itself;
* `tokenize_displayed` — the main statement.
-/

namespace HtmlTemplate

namespace Lexeme

variable {cs : List Char} {stop : Char → Bool}

/-! ## Text without backslashes -/

/-- The character would be written without a backslash. -/
def IsPlain (stop : Char → Bool) (c : Char) : Prop := c ≠ '\\' ∧ stop c = false

theorem escaped_of_plain {text : List Char} (h : ∀ c ∈ text, IsPlain stop c) : escaped stop text = text := by
  induction text with
  | nil => rfl
  | cons c text ih =>
    obtain ⟨⟨hbackslash, hstop⟩, hmore⟩ := List.forall_mem_cons.mp h
    have hc : ¬ (c = '\\' || stop c) = true := by simp [hbackslash, hstop]
    have hcons : escaped stop (c :: text) = (if c = '\\' || stop c then ['\\', c] else [c]) ++ escaped stop text :=
      List.flatMap_cons
    rw [hcons, if_neg hc, ih hmore]
    rfl

/-- A run of text holds a delimiter only behind a backslash. -/
theorem escapedRun_plain (h : '\\' ∉ cs) : ∀ c ∈ (escapedRun stop cs).value, IsPlain stop c := by
  fun_induction escapedRun stop cs with
  | case1 | case3 => exact List.forall_mem_nil _
  | case2 c cs run ih => exact absurd List.mem_cons_self h
  | case4 c cs hbackslash hstop run ih =>
    rw [List.mem_cons, not_or] at h
    rw [Bool.or_eq_true, not_or, decide_eq_true_eq, Bool.not_eq_true] at hstop
    exact List.forall_mem_cons.mpr ⟨hstop, ih h.2⟩

theorem unescaped_of_plain {text : List Char} (h : '\\' ∉ text) : unescaped text = text := by
  induction text with
  | nil => rfl
  | cons c text ih =>
    rw [List.mem_cons, not_or] at h
    rw [unescaped, ih h.2]
    exact fun _ _ hc _ => h.1 hc.symm

/-- The text in the segments of a literal is plain. -/
theorem literalBody_plain {piece : Piece (List (Segment × List Char))} (h : literalBody cs = .ok piece)
    (hcs : '\\' ∉ cs) {content : String} {text : List Char} (hmem : (.text content, text) ∈ piece.value) :
    ∀ c ∈ content.toList, IsPlain endsLiteralText c := by
  have hsegment : ∀ {cs : List Char} {run : Piece (List Char)}, escapedRun endsLiteralText cs = run → '\\' ∉ cs →
      (.text content, text) ∈ textSegments run.value run.text → ∀ c ∈ content.toList, IsPlain endsLiteralText c := by
    rintro cs _ rfl hcs hmem
    unfold textSegments at hmem
    split at hmem
    · cases hmem
    · cases List.mem_singleton.mp hmem
      rw [String.toList_ofList]
      exact escapedRun_plain hcs
  fun_induction literalBody cs generalizing piece with
  | case1 cs value text' rest hrun =>
    cases h
    exact hsegment hrun hcs hmem
  | case2 | case3 | case5 => cases h
  | case4 cs value text' more hrun ref href tail htail ih =>
    cases h
    rcases List.mem_append.mp hmem with hmem | hmem
    · exact hsegment hrun hcs hmem
    · rcases List.mem_cons.mp hmem with hmem | hmem
      · cases hmem
      · -- Behind the reference comes a part of the same text.
        have hparts : text' ++ '@' :: (ref.text ++ ref.rest) = cs := by
          rw [(reference_readFrom href).append, ← escapedRun_append endsLiteralText cs, hrun]
        have hrest : '\\' ∉ ref.rest := fun hin => hcs (by rw [← hparts]; simp [hin])
        exact ih htail hrest hmem

theorem lexeme_plain {c : Char} {segments : List (Segment × List Char)} {text rest : List Char}
    (h : lexeme c cs = .ok ⟨.literal segments, text, rest⟩) (hcs : '\\' ∉ cs) :
    ∀ segment ∈ segments, segment.1.printed = segment.1.display.toList := by
  have hplain : ∀ content text, (.text content, text) ∈ segments → ∀ d ∈ content.toList, IsPlain endsLiteralText d := by
    unfold lexeme at h
    split at h
    · split at h <;> cases h
    · split at h
      · cases h
      · rename_i body hbody
        cases h
        exact fun content text => literalBody_plain hbody hcs
    · split at h <;> cases h
    · split at h <;> cases h
    · split at h
      · rename_i kind hkind
        unfold punctuation at hkind
        split at hkind <;> cases hkind <;> cases h
      · split at h <;> cases h
  rintro ⟨segment, text⟩ hmem
  cases segment with
  | text content => exact escaped_of_plain (hplain content text hmem)
  | reference ref => rfl

/-! ## Lexemes as they are shown -/

/-- What the lexeme says, with its segments as they are shown. -/
def shownKind : TokenKind (List Char) → TokenKind (List Char)
  | .literal segments => .literal (segments.map fun segment => (segment.1, segment.1.display.toList))
  | kind => kind

/-- The lexeme as it is shown, with a space behind it. -/
def shown (lexeme : Lexeme) : Lexeme := ⟨shownKind lexeme.kind, lexeme.kind.display.toList, [' ']⟩

/-- It says the same. -/
theorem map_shownKind (kind : TokenKind (List Char)) : (shownKind kind).map (fun _ => ()) = kind.map fun _ => () := by
  cases kind with
  | literal segments =>
    show TokenKind.literal _ = TokenKind.literal _
    rw [List.map_map]
    rfl
  | _ => rfl

theorem standsAlone_reference {ref : Reference} (h : ref.path.IsProper) (blank : List Char) :
    StandsAlone ⟨.reference ref, ref.display.toList, blank⟩ := by
  obtain ⟨text, htext, -⟩ := reference_display h []
  refine ⟨'@', text, htext, rfl, fun rest _ => ?_⟩
  obtain ⟨text', htext', href⟩ := reference_display h rest
  obtain rfl : text = text' := (List.cons.inj (htext.symm.trans htext')).2
  simp only [lexeme, href]
  rw [htext]

/-- What is shown of a literal is what is printed of it, if its text is plain. -/
theorem shown_literal {segments : List (Segment × List Char)}
    (h : ∀ segment ∈ segments, segment.1.printed = segment.1.display.toList) (text blank : List Char) :
    shown ⟨.literal segments, text, blank⟩ =
      ⟨.literal ((segments.map Prod.fst).map fun segment => (segment, segment.printed)),
        printLiteral (segments.map Prod.fst), [' ']⟩ := by
  have hkind : segments.map (fun segment => (segment.1, segment.1.display.toList)) =
      (segments.map Prod.fst).map fun segment => (segment, segment.printed) := by
    rw [List.map_map]
    exact List.map_congr_left fun segment hmem => Prod.ext rfl (h segment hmem).symm
  have htext : (TokenKind.literal segments).display.toList = printLiteral (segments.map Prod.fst) := by
    have hsegments : segments.flatMap (fun segment => segment.1.display.toList) =
        (segments.map Prod.fst).flatMap Segment.printed := by
      rw [List.flatMap_map]
      exact List.flatMap_congr fun segment hmem => (h segment hmem).symm
    rw [printLiteral, ← hsegments]
    simp [TokenKind.display, List.flatMap_map]
  rw [shown, shownKind, hkind, htext]

/-- **What is shown of a token is a token by itself**, if the token is written without backslashes. -/
theorem StandsAlone.shown {lexeme : Lexeme} (h : lexeme.StandsAlone) (hplain : '\\' ∉ lexeme.text) :
    lexeme.shown.StandsAlone := by
  obtain ⟨c, tail, htext, -, hread⟩ := id h
  have hpiece := hread [] nofun
  have hwritten := lexeme_writtenAs hpiece
  rw [List.append_nil] at hpiece
  obtain ⟨kind, text, blank⟩ := lexeme
  dsimp only at htext hplain hpiece hwritten
  -- Most tokens are shown as they are written.
  have hsame : kind.display.toList = text → shownKind kind = kind → StandsAlone (Lexeme.shown ⟨kind, text, blank⟩) := by
    intro hdisplay hkind
    rw [Lexeme.shown, hdisplay, hkind]
    exact h
  cases kind with
  | literal segments =>
    rw [shown_literal (lexeme_plain hpiece fun hin => hplain (htext ▸ List.mem_cons_of_mem c hin))]
    exact ⟨'~', _, rfl, rfl, fun rest _ => lexeme_printLiteral (lexeme_isLiteral hpiece rfl) rest⟩
  | reference ref =>
    exact standsAlone_reference (lexeme_isProper hpiece ref.path List.mem_cons_self) [' ']
  | quote content =>
    obtain ⟨raw, hraw, hcontent⟩ := hwritten
    have hrawPlain : '\\' ∉ raw := fun hin => hplain (by rw [hraw]; simp [hin])
    rw [unescaped_of_plain hrawPlain] at hcontent
    apply hsame _ rfl
    rw [hraw, hcontent]
    simp [TokenKind.display]
  | _ => exact hsame hwritten.symm rfl

end Lexeme

/-! ## The main statement -/

/-- The texts of some tokens and of the end of the source, with a space between any two. -/
theorem intercalate_display (found : List Lexeme) (file : Nat) (start : Position) (eof : Location) :
    " ".intercalate ((Lexeme.tokens file start found ++ [eof.token .eof]).map Token.display) =
      String.ofList ((found.map Lexeme.shown).flatMap Lexeme.chars) := by
  induction found generalizing start with
  | nil => rfl
  | cons lexeme found ih =>
    have hdisplay : (lexeme.kind.layOut start).display = lexeme.kind.display := by
      rw [← TokenKind.display_map (fun _ => ()), TokenKind.map_layOut, TokenKind.display_map]
    have hmore := ih ((start.after lexeme.text).after lexeme.blank)
    rw [Lexeme.tokens, List.cons_append, List.map_cons, String.intercalate_cons_of_ne_nil (by simp), hmore,
      List.map_cons, List.flatMap_cons, String.ofList_append]
    show (lexeme.kind.layOut start).display ++ " " ++ _ = String.ofList (lexeme.kind.display.toList ++ [' ']) ++ _
    rw [hdisplay, String.ofList_append, String.ofList_toList]

/-- **Tokens can be read from what is shown of them.** If a source has no backslash and no fault, then what is shown of
    its tokens, with a space between any two, has no fault either, and its tokens say the same. -/
theorem tokenize_displayed {code : String} {file : Nat} {tokens : List Token} (hplain : '\\' ∉ code.toList)
    (h : tokenize code file = .ok tokens) (file' : Nat) :
    ∃ shown, tokenize (" ".intercalate (tokens.map Token.display)) file' = .ok shown ∧
      contents shown = contents tokens := by
  obtain ⟨hfault, rfl⟩ := tokenize_eq_ok h
  generalize hfound : (lexemes (code.toList.dropWhile Lexeme.isBlank)).1 = found at *
  have hchars : found.flatMap Lexeme.chars <:+ code.toList := by
    rw [← hfound, lexemes_eq_of_no_fault hfault]
    exact List.dropWhile_suffix _
  have hapart : Lexeme.Apart (found.map Lexeme.shown) := by
    refine ⟨?_, ?_, ?_⟩
    · intro lexeme hmem
      obtain ⟨written, hwritten, rfl⟩ := List.mem_map.mp hmem
      have halone : written.StandsAlone := standsAlone_of_mem_lexemes (hfound ▸ hwritten)
      apply halone.shown
      intro hin
      exact hplain (hchars.subset (List.mem_flatMap.mpr ⟨written, hwritten, List.mem_append_left _ hin⟩))
    · intro lexeme hmem
      obtain ⟨written, -, rfl⟩ := List.mem_map.mp hmem
      exact List.forall_mem_singleton.mpr rfl
    · intro lexeme hmem
      obtain ⟨written, -, rfl⟩ := List.mem_map.mp (List.dropLast_subset _ hmem)
      exact List.cons_ne_nil _ _
  obtain ⟨shown, hshown, hcontents⟩ := tokenize_apart (List.forall_mem_nil _) hapart file'
  refine ⟨shown, ?_, ?_⟩
  · rw [← hshown]
    exact congrArg (tokenize · file') (intercalate_display found file _ ⟨file, ⟨_, _⟩⟩)
  · rw [hcontents, contents_append, contents_tokens, List.map_map]
    have hsame : (fun lexeme : Lexeme => lexeme.kind.map fun _ => ()) ∘ Lexeme.shown =
        fun lexeme => lexeme.kind.map fun _ => () := funext fun lexeme => Lexeme.map_shownKind lexeme.kind
    rw [hsame]
    rfl

/-- A reference that a dot and a parenthesis follow, a comment with another one in it, and a literal with references
    that text follows directly. What is shown of the references is written differently. -/
theorem tokenize_displayed_references :
    let code := "@a.b.(x)/*/*é*/*/~@~c d@e~\"é\""
    let tokens : List Token := [⟨.reference ⟨["a", "b"], false⟩, ⟨⟨1, 1⟩, ⟨1, 5⟩⟩, 0⟩, ⟨.dot, ⟨⟨1, 5⟩, ⟨1, 6⟩⟩, 0⟩,
      ⟨.lparen, ⟨⟨1, 6⟩, ⟨1, 7⟩⟩, 0⟩, ⟨.ident "x", ⟨⟨1, 7⟩, ⟨1, 8⟩⟩, 0⟩, ⟨.rparen, ⟨⟨1, 8⟩, ⟨1, 9⟩⟩, 0⟩,
      ⟨.comment "/*é*/", ⟨⟨1, 9⟩, ⟨1, 18⟩⟩, 0⟩,
      ⟨.literal [(.reference ⟨["c"], true⟩, ⟨⟨1, 19⟩, ⟨1, 22⟩⟩), (.text " d", ⟨⟨1, 22⟩, ⟨1, 24⟩⟩),
        (.reference ⟨["e"], false⟩, ⟨⟨1, 24⟩, ⟨1, 26⟩⟩)], ⟨⟨1, 18⟩, ⟨1, 27⟩⟩, 0⟩,
      ⟨.quote "é", ⟨⟨1, 27⟩, ⟨1, 30⟩⟩, 0⟩, ⟨.eof, ⟨⟨1, 30⟩, ⟨1, 30⟩⟩, 0⟩]
    '\\' ∉ code.toList ∧ tokenize code 0 = .ok tokens ∧
      " ".intercalate (tokens.map Token.display) = "@(a.b) . ( x ) /*/*é*/*/ ~@~(c) d@(e)~ \"é\" " ∧
      ∃ shown, tokenize (" ".intercalate (tokens.map Token.display)) 0 = .ok shown ∧
        contents shown = contents tokens := by
  intro code tokens
  have hplain : '\\' ∉ code.toList := by decide +kernel
  have htokens : tokenize code 0 = .ok tokens := by decide +kernel
  exact ⟨hplain, htokens, by decide +kernel, tokenize_displayed hplain htokens 0⟩

end HtmlTemplate
