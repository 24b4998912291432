import HtmlTemplate.Proofs.Blame.Spelling
import HtmlTemplate.Proofs.Text.Html

/-!
# Paths and names of a source

Every path that is read from a source has a segment, and each of its segments is an identifier or a run of digits. The
readers are followed from the segments up to whole tokens, and from there to the tokens of a source
(`isProper_of_mem_scan`). All names are identifiers (`isIdentifier_of_mem_scan`).

## Contents

* `IsNumeral`, `Path.IsProper` — runs of digits, and what the paths of a source are like;
* `TokenKind.paths` — the paths of a token, those in a literal included;
* `Lexeme.lexeme_isProper`, `isProper_of_mem_scan` — the paths of a source;
* `Lexeme.isIdentifier_of_lexeme`, `isIdentifier_of_mem_scan` — its names;
* `file_of_mem_scan` — the file of its tokens.
-/

namespace HtmlTemplate

/-- A run of digits. -/
def IsNumeral (text : String) : Prop := text.toList ≠ [] ∧ text.toList.all Char.isDigit = true

/-- The path is not empty, and each segment is an identifier or a run of digits. -/
structure Path.IsProper (path : Path) : Prop where
  nonempty : path ≠ []
  segments : ∀ segment ∈ path, IsIdentifier segment ∨ IsNumeral segment

/-- The path of a segment, if it is that of a reference. -/
def Segment.path? : Segment → Option Path
  | .text _ => none
  | .reference ref => some ref.path

/-- The paths of a token. -/
def TokenKind.paths {α : Type} : TokenKind α → List Path
  | .reference ref => [ref.path]
  | .literal segments => segments.filterMap fun segment => segment.1.path?
  | _ => []

/-! ## Readers -/

namespace Lexeme

theorem pathSegment_isProper {cs : List Char} {piece : Piece String} (h : pathSegment cs = some piece) :
    IsIdentifier piece.value ∨ IsNumeral piece.value := by
  unfold pathSegment at h
  split at h
  · cases h
  · rename_i c cs
    split at h
    · rename_i hstart
      cases h
      exact .inl (isIdentifier_ofList hstart)
    · split at h
      · rename_i hdigit
        cases h
        refine .inr ⟨?_, ?_⟩
        · rw [String.toList_ofList]
          exact List.cons_ne_nil _ _
        · rw [String.toList_ofList, List.all_cons, hdigit, List.all_takeWhile, Bool.true_and]
      · cases h

theorem path_isProper {cs : List Char} {piece : Piece Path} (h : path cs = some piece) : piece.value.IsProper := by
  fun_induction path cs generalizing piece with
  | case1 => cases h
  | case2 cs head hs | case4 cs head hs =>
    cases h
    refine ⟨List.cons_ne_nil _ _, fun segment hsegment => ?_⟩
    cases List.mem_singleton.mp hsegment
    exact pathSegment_isProper hs
  | case3 cs head hs cs' hr tail ht ih =>
    cases h
    exact ⟨List.cons_ne_nil _ _, List.forall_mem_cons.mpr ⟨pathSegment_isProper hs, (ih ht).segments⟩⟩

theorem pathOrGroup_isProper {cs : List Char} {piece : Piece Path} (h : pathOrGroup cs = some piece) :
    piece.value.IsProper := by
  unfold pathOrGroup at h
  split at h
  · split at h
    · cases h
    · rename_i inner hpath
      split at h
      · cases h
        have hinner : inner.value.IsProper := path_isProper hpath
        exact hinner
      · cases h
  · exact path_isProper h

theorem reference_isProper {cs : List Char} {piece : Piece Reference} (h : reference cs = some piece) :
    piece.value.path.IsProper := by
  unfold reference at h
  split at h
  · obtain ⟨path, hpath, rfl⟩ := Option.map_eq_some_iff.mp h
    exact pathOrGroup_isProper hpath
  · obtain ⟨path, hpath, rfl⟩ := Option.map_eq_some_iff.mp h
    exact pathOrGroup_isProper hpath

/-- A run of text has no path. -/
theorem filterMap_textSegments (value text : List Char) :
    ((textSegments value text).filterMap fun segment => segment.1.path?) = [] := by
  unfold textSegments
  split <;> rfl

theorem literalBody_isProper {cs : List Char} {piece : Piece (List (Segment × List Char))}
    (h : literalBody cs = .ok piece) :
    ∀ path ∈ piece.value.filterMap fun segment => segment.1.path?, path.IsProper := by
  fun_induction literalBody cs generalizing piece with
  | case1 cs value text rest =>
    cases h
    rw [filterMap_textSegments]
    exact List.forall_mem_nil _
  | case2 | case3 | case5 => cases h
  | case4 cs value text cs' _ ref href tail htail ih =>
    cases h
    rw [List.filterMap_append, filterMap_textSegments, List.nil_append]
    show ∀ path ∈ ref.value.path :: tail.value.filterMap _, path.IsProper
    exact List.forall_mem_cons.mpr ⟨reference_isProper href, ih htail⟩

theorem punctuation_paths {c : Char} {kind : TokenKind (List Char)} (h : punctuation c = some kind) :
    kind.paths = [] := by
  unfold punctuation at h
  split at h <;> cases h <;> rfl

theorem lexeme_isProper {c : Char} {cs : List Char} {piece : Piece (TokenKind (List Char))}
    (h : lexeme c cs = .ok piece) : ∀ path ∈ piece.value.paths, path.IsProper := by
  unfold lexeme at h
  split at h
  · split at h <;> cases h
    exact List.forall_mem_nil _
  · split at h
    · cases h
    · rename_i body hbody
      cases h
      exact literalBody_isProper hbody
  · split at h <;> cases h
    exact List.forall_mem_nil _
  · split at h
    · cases h
    · rename_i ref href
      cases h
      exact List.forall_mem_singleton.mpr (reference_isProper href)
  · split at h
    · rename_i kind hkind
      cases h
      rw [punctuation_paths hkind]
      exact List.forall_mem_nil _
    · split at h <;> cases h
      exact List.forall_mem_nil _

theorem isIdentifier_of_lexeme {c : Char} {cs : List Char} {piece : Piece (TokenKind (List Char))} {name : String}
    (h : lexeme c cs = .ok piece) (hname : piece.value = .ident name) : IsIdentifier name := by
  unfold lexeme at h
  split at h
  · split at h <;> cases h
    cases hname
  · split at h <;> cases h
    cases hname
  · split at h <;> cases h
    cases hname
  · split at h <;> cases h
    cases hname
  · split at h
    · rename_i kind hkind
      cases h
      unfold punctuation at hkind
      split at hkind <;> cases hkind <;> cases hname
    · split at h
      · rename_i hstart
        cases h
        cases hname
        exact isIdentifier_ofList hstart
      · cases h

end Lexeme

/-! ## Sources -/

/-- Every token of a source but its end is read in one piece. -/
theorem exists_piece_of_mem_scan {code : String} {file : Nat} {token : Token} (h : token ∈ (scan code file).tokens)
    (heof : token.kind ≠ .eof) :
    ∃ c cs piece start, Lexeme.lexeme c cs = .ok piece ∧ token.kind = piece.value.layOut start := by
  obtain ⟨-, before, lexeme, after, hfound, hkind, -⟩ := exists_lexeme_of_mem_scan h heof
  have hmem : lexeme ∈ (lexemes (code.toList.dropWhile Lexeme.isBlank)).1 := by
    rw [hfound]
    exact List.mem_append_right _ List.mem_cons_self
  obtain ⟨c, cs, piece, hpiece, rfl⟩ := exists_of_mem_lexemes hmem
  exact ⟨c, cs, piece, _, hpiece, hkind⟩

theorem filterMap_layOut (start : Position) (segments : List (Segment × List Char)) :
    ((layOut start segments).filterMap fun segment => segment.1.path?) =
      segments.filterMap fun segment => segment.1.path? := by
  induction segments generalizing start with
  | nil => rfl
  | cons segment segments ih =>
    obtain ⟨segment, text⟩ := segment
    rw [layOut, List.filterMap_cons, List.filterMap_cons, ih]

/-- The paths of a token do not depend on where it stands. -/
theorem TokenKind.paths_layOut (start : Position) (kind : TokenKind (List Char)) :
    (kind.layOut start).paths = kind.paths := by
  cases kind with
  | literal segments => exact filterMap_layOut _ segments
  | _ => rfl

/-- **The paths of a source** are not empty and are made of identifiers and runs of digits. -/
theorem isProper_of_mem_scan {code : String} {file : Nat} {token : Token} (h : token ∈ (scan code file).tokens) :
    ∀ path ∈ token.kind.paths, path.IsProper := by
  by_cases heof : token.kind = .eof
  · rw [heof]
    exact nofun
  · obtain ⟨c, cs, piece, start, hpiece, hkind⟩ := exists_piece_of_mem_scan h heof
    rw [hkind, TokenKind.paths_layOut]
    exact Lexeme.lexeme_isProper hpiece

/-- The names of a source are identifiers. -/
theorem isIdentifier_of_mem_scan {code : String} {file : Nat} {token : Token} {name : String}
    (h : token ∈ (scan code file).tokens) (hname : token.kind = .ident name) : IsIdentifier name := by
  obtain ⟨c, cs, piece, start, hpiece, hkind⟩ := exists_piece_of_mem_scan h (by rw [hname]; exact nofun)
  rw [hname] at hkind
  have hvalue : piece.value = .ident name := by
    cases hpieceKind : piece.value <;> rw [hpieceKind] at hkind <;> cases hkind
    rfl
  exact Lexeme.isIdentifier_of_lexeme hpiece hvalue

theorem file_of_mem_scan {code : String} {file : Nat} {token : Token} (h : token ∈ (scan code file).tokens) :
    token.file = file := by
  unfold scan at h
  dsimp only at h
  split at h
  · rcases List.mem_append.mp h with hmem | hlast
    · obtain ⟨-, -, -, -, hfile, -, -, -⟩ := mem_tokens hmem
      exact hfile
    · rw [List.mem_singleton.mp hlast]
  · obtain ⟨-, -, -, -, hfile, -, -, -⟩ := mem_tokens h
    exact hfile

end HtmlTemplate
