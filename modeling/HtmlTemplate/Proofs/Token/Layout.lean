import HtmlTemplate.Proofs.Token.Apart

/-!
# Blank does not matter

A source without fault is the texts of its tokens with blank in between, and often with none: a bracket, a name or a
reference may touch what stands next to it. Other blank may be put in all these places (`tokenize_relaid`). The tokens
stand somewhere else then, and say the same.

## Contents

* `Laid`, `Laid.source` — texts with blank behind each of them;
* `Laid.Spaced` — blank that keeps texts apart;
* `Laid.HasTexts` — the texts of the tokens of a source;
* `exists_laid` — every source is laid out in some way;
* `tokenize_relaid` — other ways to lay out the same texts.
-/

namespace HtmlTemplate

/-- A text and the blank behind it. -/
structure Laid where
  text : List Char
  blank : List Char

namespace Laid

/-- Texts with blank behind each of them, and some blank in front of the first. -/
def source (front : List Char) (parts : List Laid) : String :=
  String.ofList (front ++ parts.flatMap fun part => part.text ++ part.blank)

/-- There is nothing but blank in all places, and some between any two texts. -/
structure Spaced (front : List Char) (parts : List Laid) : Prop where
  front : ∀ c ∈ front, Lexeme.isBlank c = true
  blank : ∀ part ∈ parts, ∀ c ∈ part.blank, Lexeme.isBlank c = true
  nonempty : ∀ part ∈ parts.dropLast, part.blank ≠ []

/-- The texts are those of the tokens of a source, found by their ranges. The last token is the end of the source, and
    has no text. -/
def HasTexts (code : String) (tokens : List Token) (parts : List Laid) : Prop :=
  List.Forall₂ (fun token text => token.range.bytes code = (String.ofList text).toByteArray) tokens
    (parts.map Laid.text ++ [[]])

variable {code : String} {file : Nat} {tokens : List Token} {parts parts' : List Laid}

/-- The texts of tokens are determined. -/
theorem HasTexts.unique (h : HasTexts code tokens parts) (h' : HasTexts code tokens parts') :
    parts.map Laid.text = parts'.map Laid.text := by
  have hsame : ∀ {tokens : List Token} {texts texts' : List (List Char)},
      List.Forall₂ (fun token text => token.range.bytes code = (String.ofList text).toByteArray) tokens texts →
      List.Forall₂ (fun token text => token.range.bytes code = (String.ofList text).toByteArray) tokens texts' →
        texts = texts' := by
    intro tokens texts texts' h h'
    induction h generalizing texts' with
    | nil =>
      cases h'
      rfl
    | cons htext _ ih =>
      cases h' with
      | cons htext' hmore' =>
        rw [String.ofList_injective (String.toByteArray_inj.mp (htext.symm.trans htext')), ih hmore']
  exact List.append_cancel_right (hsame h h')

/-- A lexeme as it is laid out. -/
def ofLexeme (lexeme : Lexeme) : Laid := ⟨lexeme.text, lexeme.blank⟩

end Laid

variable {code : String} {file : Nat} {tokens : List Token} {parts : List Laid}

/-- The lexemes of a source have the texts of its tokens. -/
theorem hasTexts_ofLexeme (h : tokenize code file = .ok tokens) :
    Laid.HasTexts code tokens ((lexemes (code.toList.dropWhile Lexeme.isBlank)).1.map Laid.ofLexeme) := by
  obtain ⟨hfault, rfl⟩ := tokenize_eq_ok h
  generalize hfound : (lexemes (code.toList.dropWhile Lexeme.isBlank)).1 = found at *
  have hcode : code.toList.takeWhile Lexeme.isBlank ++ found.flatMap Lexeme.chars = code.toList := by
    rw [← hfound, lexemes_eq_of_no_fault hfault, List.takeWhile_append_dropWhile]
  have hread : ∀ lexeme ∈ found, lexeme.Read := fun lexeme hmem => lexemes_read (hfound ▸ hmem)
  let start := Position.first.after (code.toList.takeWhile Lexeme.isBlank)
  let written := Lexeme.written file [] start found
  have htexts : (found.map Laid.ofLexeme).map Laid.text ++ [[]] = written.map Written.text := by
    rw [List.map_map]
    exact (map_text_written [] start).symm
  unfold Laid.HasTexts
  rw [htexts, ← map_token_written [] start, List.forall₂_map_left_iff, List.forall₂_map_right_iff, List.forall₂_same]
  intro part hpart
  obtain ⟨-, -, before, -, hcovers⟩ := mem_written hcode hread hpart
  exact hcovers.bytes_eq

/-- **Every source is laid out in some way**: it is the texts of its tokens, and blank. -/
theorem exists_laid (h : tokenize code file = .ok tokens) :
    ∃ front parts, Laid.source front parts = code ∧ Laid.HasTexts code tokens parts ∧
      (∀ c ∈ front, Lexeme.isBlank c = true) ∧ ∀ part ∈ parts, ∀ c ∈ part.blank, Lexeme.isBlank c = true := by
  refine ⟨code.toList.takeWhile Lexeme.isBlank, _, ?_, hasTexts_ofLexeme h, ?_, ?_⟩
  · have hchars := lexemes_eq_of_no_fault (tokenize_eq_ok h).1
    unfold Laid.source
    rw [List.flatMap_map]
    show String.ofList (_ ++ List.flatMap Lexeme.chars _) = code
    rw [hchars, List.takeWhile_append_dropWhile, String.ofList_toList]
  · exact fun _ => List.mem_takeWhile_imp
  · intro part hpart
    obtain ⟨lexeme, hmem, rfl⟩ := List.mem_map.mp hpart
    exact (lexemes_read hmem).blank

/-- Lexemes with other blank behind them. -/
theorem Lexeme.exists_relaid {found : List Lexeme} (h : parts.map Laid.text = found.map Lexeme.text) :
    ∃ relaid : List Lexeme, relaid.map Laid.ofLexeme = parts ∧ relaid.map Lexeme.kind = found.map Lexeme.kind ∧
      ((∀ lexeme ∈ found, lexeme.StandsAlone) → ∀ lexeme ∈ relaid, lexeme.StandsAlone) := by
  induction found generalizing parts with
  | nil =>
    obtain rfl := List.map_eq_nil_iff.mp h
    exact ⟨[], rfl, rfl, fun h => h⟩
  | cons lexeme found ih =>
    obtain ⟨part, parts, rfl, htext, hmore⟩ := List.map_eq_cons_iff.mp h
    obtain ⟨relaid, rfl, hkinds, halone⟩ := ih hmore
    refine ⟨⟨lexeme.kind, lexeme.text, part.blank⟩ :: relaid, ?_, ?_, ?_⟩
    · rw [List.map_cons, Laid.ofLexeme, ← htext]
    · rw [List.map_cons, List.map_cons, hkinds]
    · intro hfound
      obtain ⟨hlexeme, hfound⟩ := List.forall_mem_cons.mp hfound
      exact List.forall_mem_cons.mpr ⟨hlexeme, halone hfound⟩

/-- **Blank does not matter.** Texts of the tokens of a source that are laid out in another way, with blank between
    any two, are tokens that say the same. -/
theorem tokenize_relaid (h : tokenize code file = .ok tokens) {front : List Char}
    (htexts : Laid.HasTexts code tokens parts) (hspaced : Laid.Spaced front parts) (file' : Nat) :
    ∃ relaid, tokenize (Laid.source front parts) file' = .ok relaid ∧ contents relaid = contents tokens := by
  -- The texts are those of the lexemes, so there are the same lexemes with other blank behind them.
  have hsame := htexts.unique (hasTexts_ofLexeme h)
  obtain ⟨-, rfl⟩ := tokenize_eq_ok h
  rw [List.map_map] at hsame
  obtain ⟨relaid, rfl, hkinds, halone⟩ := Lexeme.exists_relaid hsame
  have hapart : Lexeme.Apart relaid := by
    refine ⟨halone fun lexeme hmem => standsAlone_of_mem_lexemes hmem, ?_, ?_⟩
    · intro lexeme hmem
      exact hspaced.blank _ (List.mem_map_of_mem hmem)
    · intro lexeme hmem
      have hdropped : Laid.ofLexeme lexeme ∈ (relaid.map Laid.ofLexeme).dropLast := by
        rw [← List.map_dropLast]
        exact List.mem_map_of_mem hmem
      exact hspaced.nonempty _ hdropped
  obtain ⟨again, hagain, hcontents⟩ := tokenize_apart hspaced.front hapart file'
  refine ⟨again, ?_, ?_⟩
  · unfold Laid.source
    rw [List.flatMap_map]
    exact hagain
  · have hsays : ∀ found : List Lexeme, found.map (fun lexeme => lexeme.kind.map fun _ => ()) =
        (found.map Lexeme.kind).map (TokenKind.map fun _ => ()) := by
      intro found
      rw [List.map_map]
      rfl
    rw [hcontents, contents_append, contents_tokens, hsays, hsays, hkinds]
    rfl

end HtmlTemplate
