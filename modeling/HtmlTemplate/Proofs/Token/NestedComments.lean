import Mathlib.Logic.Relation
import HtmlTemplate.Proofs.Token.Faults

/-!
# Comments nest exactly

A comment is what stands between `/*` and `*/`: comments, and characters at which no delimiter starts
(`IsCommentContent`). The reader knows nothing of this. It goes through the text once, by one character or two at a
time, and counts how many comments are open (`CommentState.Step`).

Both come to the same. A text that is read with some comments open is the content of as many comments that close one
behind the other (`OpenContent`), which is what the induction is on; and content is gone through at any depth without a
trace (`IsCommentContent.commentBody_append`). So a comment is read where one stands, it ends at one place only, and
reading goes on behind it (`comments_nest`).

## Contents

* `StartsMark`, `IsCommentContent`, `IsComment` — the grammar of comments;
* `CommentState.Step`, `CommentState.Reaches` — the count of open comments;
* `Lexeme.commentBody_open`, `commentBody_close`, `commentBody_end`, `commentBody_char` — the reader, step by step;
* `Lexeme.commentBody_delimited`, `isCommentContent_of_commentBody` — what it reads;
* `Lexeme.commentBody_iff_reaches` — how it counts;
* `comments_nest` — the main statement.
-/

namespace HtmlTemplate

/-! ## The grammar -/

/-- A delimiter of comments stands at the beginning of the text. -/
def StartsMark (cs : List Char) : Prop := ['/', '*'] <+: cs ∨ ['*', '/'] <+: cs

/-- What stands between the delimiters of a comment: comments, and characters at which no delimiter starts. The
    delimiter that closes follows, so the last characters are seen together with it. -/
inductive IsCommentContent : List Char → Prop where
  | nil : IsCommentContent []
  | comment {inner more : List Char} (hinner : IsCommentContent inner) (hmore : IsCommentContent more) :
    IsCommentContent ('/' :: '*' :: (inner ++ '*' :: '/' :: more))
  | char {c : Char} {more : List Char} (hstands : ¬ StartsMark (c :: (more ++ ['*', '/'])))
    (hmore : IsCommentContent more) : IsCommentContent (c :: more)

/-- A text between the delimiters of a comment. -/
def inComment (content : List Char) : List Char := '/' :: '*' :: (content ++ ['*', '/'])

/-- The text is a comment. -/
def IsComment (text : List Char) : Prop := ∃ content, IsCommentContent content ∧ text = inComment content

/-! ## The count -/

/-- A place in a comment: how many comments are open, and what follows. -/
structure CommentState where
  depth : Int
  rest : List Char

/-- One step further in a comment. There is none from the delimiter that closes the last open comment, and none from
    the end of the text. -/
inductive CommentState.Step : CommentState → CommentState → Prop where
  | close {depth : Int} {cs : List Char} (hinner : depth - 1 ≠ 0) :
    Step ⟨depth, '*' :: '/' :: cs⟩ ⟨depth - 1, cs⟩
  | opening {depth : Int} {cs : List Char} : Step ⟨depth, '/' :: '*' :: cs⟩ ⟨depth + 1, cs⟩
  | char {depth : Int} {c : Char} {cs : List Char} (hstands : ¬ StartsMark (c :: cs)) :
    Step ⟨depth, c :: cs⟩ ⟨depth, cs⟩

/-- Any number of steps further. -/
abbrev CommentState.Reaches : CommentState → CommentState → Prop := Relation.ReflTransGen CommentState.Step

/-! ## Delimiters -/

variable {cs rest content : List Char} {depth : Nat}

theorem startsMark_cons {c : Char} :
    StartsMark (c :: cs) ↔ (c = '/' ∧ ∃ more, cs = '*' :: more) ∨ (c = '*' ∧ ∃ more, cs = '/' :: more) := by
  cases cs <;> simp [StartsMark, eq_comm]

theorem startsMark_opening : StartsMark ('/' :: '*' :: cs) := by simp [startsMark_cons]

theorem startsMark_closing : StartsMark ('*' :: '/' :: cs) := by simp [startsMark_cons]

/-- Two characters tell whether a delimiter starts. -/
theorem startsMark_append {c : Char} {more : List Char} (hmore : more ≠ []) :
    StartsMark (c :: (more ++ rest)) ↔ StartsMark (c :: more) := by
  obtain ⟨d, more, rfl⟩ := List.exists_cons_of_ne_nil hmore
  simp [startsMark_cons]

/-- Behind the content of a comment only the delimiter matters. -/
theorem startsMark_inComment {c : Char} {more : List Char} :
    StartsMark (c :: (more ++ '*' :: '/' :: rest)) ↔ StartsMark (c :: (more ++ ['*', '/'])) := by
  have hfront : more ++ '*' :: '/' :: rest = (more ++ ['*', '/']) ++ rest := by simp
  rw [hfront, startsMark_append (by simp)]

/-- The piece with some more characters in front. -/
def Piece.prepend (front : List Char) (piece : Piece (List Char)) : Piece (List Char) :=
  ⟨front ++ piece.value, front ++ piece.text, piece.rest⟩

theorem Piece.map_prepend_nil (piece? : Option (Piece (List Char))) : piece?.map (Piece.prepend []) = piece? := by
  cases piece? <;> simp [Piece.prepend]

theorem Piece.map_prepend_prepend (front between : List Char) (piece? : Option (Piece (List Char))) :
    (piece?.map (Piece.prepend between)).map (Piece.prepend front) = piece?.map (Piece.prepend (front ++ between)) := by
  cases piece? <;> simp [Piece.prepend]

namespace Lexeme

/-! ## The reader, step by step -/

theorem commentBody_open :
    commentBody depth ('/' :: '*' :: cs) = (commentBody (depth + 1) cs).map (Piece.prepend ['/', '*']) := by
  cases depth with
  | zero => rfl
  | succ depth => rfl

theorem commentBody_close :
    commentBody (depth + 1) ('*' :: '/' :: cs) = (commentBody depth cs).map (Piece.prepend ['*', '/']) := rfl

theorem commentBody_end : commentBody 0 ('*' :: '/' :: cs) = some ⟨[], ['*', '/'], cs⟩ := rfl

theorem commentBody_char {c : Char} (hstands : ¬ StartsMark (c :: cs)) :
    commentBody depth (c :: cs) = (commentBody depth cs).map (Piece.prepend [c]) := by
  rw [commentBody]
  · rfl
  · rintro more rfl rfl
    exact hstands startsMark_opening
  · rintro more - rfl rfl
    exact hstands startsMark_closing
  · rintro inner more - rfl rfl
    exact hstands startsMark_closing

/-- The last case of the reader is that of a character at which no delimiter starts. -/
theorem not_startsMark {c : Char} (hend : ∀ more, depth = 0 → c = '*' → cs = '/' :: more → False)
    (hclose : ∀ less more, depth = less + 1 → c = '*' → cs = '/' :: more → False)
    (hopen : ∀ more, c = '/' → cs = '*' :: more → False) : ¬ StartsMark (c :: cs) := by
  rw [startsMark_cons]
  rintro (⟨hc, more, hmore⟩ | ⟨hc, more, hmore⟩)
  · exact hopen more hc hmore
  · cases depth with
    | zero => exact hend more rfl hc hmore
    | succ depth => exact hclose depth more rfl hc hmore

/-! ## Content is read at any depth -/

/-- The content of a comment is gone through, and what follows is read as if it were not there. -/
theorem commentBody_content (h : IsCommentContent content) (depth : Nat) (rest : List Char) :
    commentBody depth (content ++ '*' :: '/' :: rest) =
      (commentBody depth ('*' :: '/' :: rest)).map (Piece.prepend content) := by
  induction h generalizing depth rest with
  | nil => rw [Piece.map_prepend_nil, List.nil_append]
  | @comment inner more _ _ ihInner ihMore =>
    have hinner := ihInner (depth + 1) (more ++ '*' :: '/' :: rest)
    rw [commentBody_close, ihMore depth rest, Piece.map_prepend_prepend, Piece.map_prepend_prepend] at hinner
    have htext : '/' :: '*' :: (inner ++ '*' :: '/' :: more) ++ '*' :: '/' :: rest =
        '/' :: '*' :: (inner ++ '*' :: '/' :: (more ++ '*' :: '/' :: rest)) := by simp
    rw [htext, commentBody_open, hinner, Piece.map_prepend_prepend]
    simp
  | @char c more hstands _ ih =>
    rw [List.cons_append, commentBody_char (by rwa [startsMark_inComment]), ih depth rest, Piece.map_prepend_prepend]
    simp

/-- **A comment is read where one stands.** -/
theorem commentBody_delimited (h : IsCommentContent content) (rest : List Char) :
    commentBody 0 (content ++ '*' :: '/' :: rest) = some ⟨content, content ++ ['*', '/'], rest⟩ := by
  rw [commentBody_content h, commentBody_end]
  simp [Piece.prepend]

end Lexeme

/-! ## What is read is content -/

/-- The contents of comments that close one behind the other, `depth` of them in front of the last. -/
def OpenContent : (depth : Nat) → List Char → Prop
  | 0, text => IsCommentContent text
  | depth + 1, text =>
    ∃ content more, IsCommentContent content ∧ OpenContent depth more ∧ text = content ++ '*' :: '/' :: more

namespace OpenContent

variable {text : List Char}

/-- A comment in front of the first content is part of it. -/
theorem comment (hcontent : IsCommentContent content) (h : OpenContent depth text) :
    OpenContent depth ('/' :: '*' :: (content ++ '*' :: '/' :: text)) := by
  cases depth with
  | zero => exact .comment hcontent h
  | succ depth =>
    obtain ⟨first, more, hfirst, hmore, rfl⟩ := h
    exact ⟨_, more, .comment hcontent hfirst, hmore, by simp⟩

/-- So is a character at which no delimiter starts. -/
theorem char {c : Char} (hstands : ¬ StartsMark (c :: (text ++ ['*', '/']))) (h : OpenContent depth text) :
    OpenContent depth (c :: text) := by
  cases depth with
  | zero => exact .char hstands h
  | succ depth =>
    obtain ⟨first, more, hfirst, hmore, rfl⟩ := h
    rw [List.append_assoc, List.cons_append, List.cons_append, startsMark_inComment] at hstands
    exact ⟨_, more, .char hstands hfirst, hmore, by simp⟩

end OpenContent

namespace Lexeme

/-- What is read with comments open is the content of these. -/
theorem openContent_of_commentBody {body : Piece (List Char)} (h : commentBody depth cs = some body) :
    OpenContent depth body.value := by
  fun_induction commentBody depth cs generalizing body with
  | case1 => cases h
  | case2 cs =>
    cases h
    exact .nil
  | case3 depth cs ih =>
    obtain ⟨inner, hinner, rfl⟩ := Option.map_eq_some_iff.mp h
    exact ⟨[], inner.value, .nil, ih hinner, rfl⟩
  | case4 depth cs ih =>
    -- One more comment is open behind the delimiter, and its content comes first.
    obtain ⟨inner, hinner, rfl⟩ := Option.map_eq_some_iff.mp h
    obtain ⟨content, more, hcontent, hmore, hvalue⟩ := ih hinner
    show OpenContent depth ('/' :: '*' :: inner.value)
    rw [hvalue]
    exact hmore.comment hcontent
  | case5 depth c cs hend hclose hopen ih =>
    obtain ⟨inner, hinner, rfl⟩ := Option.map_eq_some_iff.mp h
    have htext : inner.value ++ ['*', '/'] ++ inner.rest = cs := by
      rw [← commentBody_text hinner, (commentBody_readFrom hinner).append]
    have hstands := not_startsMark hend hclose hopen
    rw [← htext, startsMark_append (by simp)] at hstands
    exact (ih hinner).char hstands

/-- **Only a comment is read.** -/
theorem isCommentContent_of_commentBody {body : Piece (List Char)} (h : commentBody 0 cs = some body) :
    IsCommentContent body.value ∧ cs = body.value ++ '*' :: '/' :: body.rest := by
  refine ⟨openContent_of_commentBody h, ?_⟩
  rw [← (commentBody_readFrom h).append, commentBody_text h]
  simp

end Lexeme

/-! ## The count of open comments -/

namespace CommentState

variable {state next other : CommentState}

/-- No step closes the last open comment. -/
theorem Step.one_le_depth (h : state.Step next) (hdepth : 1 ≤ state.depth) : 1 ≤ next.depth := by
  cases h with
  | close hinner =>
    dsimp only at hdepth ⊢
    omega
  | opening =>
    dsimp only at hdepth ⊢
    omega
  | char => exact hdepth

theorem Reaches.one_le_depth (h : state.Reaches next) (hdepth : 1 ≤ state.depth) : 1 ≤ next.depth := by
  induction h with
  | refl => exact hdepth
  | tail _ hstep ih => exact hstep.one_le_depth ih

/-- The characters at a place tell how to go on. -/
theorem Step.unique (h : state.Step next) (hother : state.Step other) : next = other := by
  cases h with
  | close =>
    cases hother with
    | close => rfl
    | char hstands => exact absurd startsMark_closing hstands
  | opening =>
    cases hother with
    | opening => rfl
    | char hstands => exact absurd startsMark_opening hstands
  | char hstands =>
    cases hother with
    | close => exact absurd startsMark_closing hstands
    | opening => exact absurd startsMark_opening hstands
    | char => rfl

/-- Where `/*/` stands, a comment is opened and the slash comes after that. -/
theorem step_opening_iff {depth : Int} : Step ⟨depth, '/' :: '*' :: '/' :: cs⟩ next ↔ next = ⟨depth + 1, '/' :: cs⟩ := by
  constructor
  · exact fun h => h.unique .opening
  · rintro rfl
    exact .opening

/-- Where `*/*` stands, a comment is closed and the asterisk comes after that. -/
theorem step_closing_iff {depth : Int} :
    Step ⟨depth, '*' :: '/' :: '*' :: cs⟩ next ↔ depth ≠ 1 ∧ next = ⟨depth - 1, '*' :: cs⟩ := by
  constructor
  · intro h
    cases h with
    | close hinner => exact ⟨by omega, rfl⟩
    | char hstands => exact absurd startsMark_closing hstands
  · rintro ⟨hdepth, rfl⟩
    exact .close (by omega)

end CommentState

namespace Lexeme

open CommentState

/-- The reader counts: it comes to the delimiter that closes the last open comment. -/
theorem reaches_of_commentBody {body : Piece (List Char)} (h : commentBody depth cs = some body) :
    Reaches ⟨depth + 1, cs⟩ ⟨1, '*' :: '/' :: body.rest⟩ := by
  fun_induction commentBody depth cs generalizing body with
  | case1 => cases h
  | case2 cs =>
    cases h
    exact .refl
  | case3 depth cs ih =>
    obtain ⟨inner, hinner, rfl⟩ := Option.map_eq_some_iff.mp h
    have hstep : Step ⟨(depth + 1 : Nat) + 1, '*' :: '/' :: cs⟩ ⟨(depth + 1 : Nat) + 1 - 1, cs⟩ := .close (by omega)
    rw [Int.add_sub_cancel] at hstep
    have hmore := ih hinner
    exact .head hstep hmore
  | case4 depth cs ih =>
    obtain ⟨inner, hinner, rfl⟩ := Option.map_eq_some_iff.mp h
    have hmore := ih hinner
    exact .head .opening hmore
  | case5 depth c cs hend hclose hopen ih =>
    obtain ⟨inner, hinner, rfl⟩ := Option.map_eq_some_iff.mp h
    have hmore := ih hinner
    exact .head (.char (not_startsMark hend hclose hopen)) hmore

/-- Where the count comes to that delimiter, the reader does. -/
theorem exists_commentBody_of_reaches {state : CommentState} (h : state.Reaches ⟨1, '*' :: '/' :: rest⟩)
    (hdepth : state.depth = depth + 1) : ∃ body, commentBody depth state.rest = some body ∧ body.rest = rest := by
  induction h using Relation.ReflTransGen.head_induction_on generalizing depth with
  | refl =>
    obtain rfl : depth = 0 := by
      dsimp only at hdepth
      omega
    exact ⟨_, commentBody_end, rfl⟩
  | head hstep _ ih =>
    cases hstep with
    | close hinner =>
      dsimp only at hdepth ih ⊢
      obtain ⟨less, rfl⟩ : ∃ less, depth = less + 1 := ⟨depth - 1, by omega⟩
      obtain ⟨body, hbody, hrest⟩ := @ih less (by omega)
      exact ⟨body.prepend _, by rw [commentBody_close, hbody]; rfl, hrest⟩
    | opening =>
      dsimp only at hdepth ih ⊢
      obtain ⟨body, hbody, hrest⟩ := @ih (depth + 1) (by omega)
      exact ⟨body.prepend _, by rw [commentBody_open, hbody]; rfl, hrest⟩
    | char hstands =>
      obtain ⟨body, hbody, hrest⟩ := ih hdepth
      exact ⟨body.prepend _, by rw [commentBody_char hstands, hbody]; rfl, hrest⟩

/-! ## The token -/

theorem lexeme_of_commentBody {body : Piece (List Char)} (h : commentBody 0 cs = some body) :
    lexeme '/' ('*' :: cs) = .ok ⟨.comment (String.ofList body.value), inComment body.value, body.rest⟩ := by
  rw [inComment, ← commentBody_text h]
  unfold lexeme
  simp only [h]

theorem lexeme_of_commentBody_none (h : commentBody 0 cs = none) :
    lexeme '/' ('*' :: cs) = .error ⟨.unterminatedComment, []⟩ := by
  unfold lexeme
  simp only [h]

/-- A comment is a token, whatever follows it. -/
theorem lexeme_inComment (h : IsCommentContent content) (hcs : '/' :: '*' :: cs = inComment content ++ rest) :
    lexeme '/' ('*' :: cs) = .ok ⟨.comment (String.ofList content), inComment content, rest⟩ := by
  have hbehind : cs = content ++ '*' :: '/' :: rest := by simpa [inComment] using hcs
  rw [hbehind]
  exact lexeme_of_commentBody (commentBody_delimited h rest)

/-- A token that starts so is a comment. -/
theorem exists_of_lexeme_comment {piece : Piece (TokenKind (List Char))} (h : lexeme '/' ('*' :: cs) = .ok piece) :
    ∃ content rest, IsCommentContent content ∧ commentBody 0 cs = some ⟨content, content ++ ['*', '/'], rest⟩ ∧
      '/' :: '*' :: cs = inComment content ++ rest ∧
      piece = ⟨.comment (String.ofList content), inComment content, rest⟩ := by
  cases hbody : commentBody 0 cs with
  | none => cases h.symm.trans (lexeme_of_commentBody_none hbody)
  | some body =>
    obtain ⟨hcontent, rfl⟩ := isCommentContent_of_commentBody hbody
    obtain rfl := Except.ok.inj (h.symm.trans (lexeme_of_commentBody hbody))
    refine ⟨body.value, body.rest, hcontent, ?_, by simp [inComment], rfl⟩
    rw [← commentBody_text hbody]

/-- The count comes to the end of a comment where the token ends. -/
theorem reaches_iff_lexeme : Reaches ⟨1, cs⟩ ⟨1, '*' :: '/' :: rest⟩ ↔
    ∃ content, lexeme '/' ('*' :: cs) = .ok ⟨.comment (String.ofList content), inComment content, rest⟩ := by
  constructor
  · intro h
    have hdepth : (1 : Int) = (0 : Nat) + 1 := rfl
    obtain ⟨body, hbody, rfl⟩ := exists_commentBody_of_reaches h hdepth
    exact ⟨body.value, lexeme_of_commentBody hbody⟩
  · rintro ⟨content, h⟩
    obtain ⟨content', rest', -, hbody, -, hpiece⟩ := exists_of_lexeme_comment h
    simp only [Piece.mk.injEq] at hpiece
    obtain ⟨-, -, rfl⟩ := hpiece
    exact reaches_of_commentBody hbody

end Lexeme

/-- The first token of a source that starts with a comment. -/
theorem scan_of_lexeme_comment {text : List Char}
    (h : Lexeme.lexeme '/' ('*' :: cs) = .ok ⟨.comment (String.ofList content), text, rest⟩) (file : Nat) :
    ∃ tokens, (scan (String.ofList ('/' :: '*' :: cs)) file).tokens =
      ⟨.comment (String.ofList content), ⟨.first, Position.first.after text⟩, file⟩ :: tokens := by
  have hblank : Lexeme.isBlank '/' = false := by decide
  have hfound := lexemes_cons h
  unfold scan
  simp only [String.toList_ofList, List.takeWhile_cons, List.dropWhile_cons, hblank, Bool.false_eq_true, if_false, hfound,
    Lexeme.tokens]
  split
  · exact ⟨_, rfl⟩
  · exact ⟨_, rfl⟩

/-- A text starts with one comment at most. -/
theorem IsComment.unique {text other : List Char} (h : IsComment text) (hother : IsComment other)
    (hfront : text <+: '/' :: '*' :: cs) (hotherFront : other <+: '/' :: '*' :: cs) : text = other := by
  obtain ⟨content, hcontent, rfl⟩ := h
  obtain ⟨content', hcontent', rfl⟩ := hother
  obtain ⟨rest, hrest⟩ := hfront
  obtain ⟨rest', hrest'⟩ := hotherFront
  have hread := (Lexeme.lexeme_inComment hcontent hrest.symm).symm.trans (Lexeme.lexeme_inComment hcontent' hrest'.symm)
  simp only [Except.ok.injEq, Piece.mk.injEq] at hread
  exact hread.2.1

open CommentState

/-- **Comments nest exactly.** Where a text starts with the delimiter that opens a comment, a token is read if and only
    if the text starts with a comment. There is only one comment then that it starts with; this is the token, its
    content is what stands between its delimiters, and reading goes on right behind it. If there is none, the delimiter
    is blamed. The reader goes through the text by counting, and comes to the end of a comment where the count does.
    At least one comment is open wherever it comes, and where delimiters overlap the first one counts. -/
theorem comments_nest (cs : List Char) :
    ((∃ piece, Lexeme.lexeme '/' ('*' :: cs) = .ok piece) ↔ ∃ text, IsComment text ∧ text <+: '/' :: '*' :: cs) ∧
    (∀ content rest, IsCommentContent content → '/' :: '*' :: cs = inComment content ++ rest →
      (∀ text, IsComment text → text <+: '/' :: '*' :: cs → text = inComment content) ∧
      Lexeme.lexeme '/' ('*' :: cs) = .ok ⟨.comment (String.ofList content), inComment content, rest⟩ ∧
      lexemes ('/' :: '*' :: cs) =
        (⟨.comment (String.ofList content), inComment content, rest.takeWhile Lexeme.isBlank⟩ ::
          (lexemes (rest.dropWhile Lexeme.isBlank)).1, (lexemes (rest.dropWhile Lexeme.isBlank)).2) ∧
      ∀ file, ∃ tokens, (scan (String.ofList ('/' :: '*' :: cs)) file).tokens =
        ⟨.comment (String.ofList content), ⟨.first, Position.first.after (inComment content)⟩, file⟩ :: tokens) ∧
    ((¬ ∃ text, IsComment text ∧ text <+: '/' :: '*' :: cs) →
      Lexeme.lexeme '/' ('*' :: cs) = .error ⟨.unterminatedComment, []⟩) ∧
    (∀ rest, Reaches ⟨1, cs⟩ ⟨1, '*' :: '/' :: rest⟩ ↔
      ∃ content, Lexeme.lexeme '/' ('*' :: cs) = .ok ⟨.comment (String.ofList content), inComment content, rest⟩) ∧
    (∀ state, Reaches ⟨1, cs⟩ state → 1 ≤ state.depth) ∧
    ∀ depth behind next,
      (Step ⟨depth, '/' :: '*' :: '/' :: behind⟩ next ↔ next = ⟨depth + 1, '/' :: behind⟩) ∧
      (Step ⟨depth, '*' :: '/' :: '*' :: behind⟩ next ↔ depth ≠ 1 ∧ next = ⟨depth - 1, '*' :: behind⟩) := by
  have hfound : (∃ piece, Lexeme.lexeme '/' ('*' :: cs) = .ok piece) ↔
      ∃ text, IsComment text ∧ text <+: '/' :: '*' :: cs := by
    constructor
    · rintro ⟨piece, hpiece⟩
      obtain ⟨content, rest, hcontent, -, hcs, -⟩ := Lexeme.exists_of_lexeme_comment hpiece
      exact ⟨_, ⟨content, hcontent, rfl⟩, rest, hcs.symm⟩
    · rintro ⟨_, ⟨content, hcontent, rfl⟩, rest, hrest⟩
      exact ⟨_, Lexeme.lexeme_inComment hcontent hrest.symm⟩
  refine ⟨hfound, ?_, ?_, ?_, ?_, ?_⟩
  · intro content rest hcontent hcs
    have hpiece := Lexeme.lexeme_inComment hcontent hcs
    refine ⟨fun text htext hfront => ?_, hpiece, lexemes_cons hpiece, scan_of_lexeme_comment hpiece⟩
    exact htext.unique ⟨content, hcontent, rfl⟩ hfront ⟨rest, hcs.symm⟩
  · intro hmissing
    cases hbody : Lexeme.commentBody 0 cs with
    | none => exact Lexeme.lexeme_of_commentBody_none hbody
    | some body => exact absurd (hfound.mp ⟨_, Lexeme.lexeme_of_commentBody hbody⟩) hmissing
  · exact fun rest => Lexeme.reaches_iff_lexeme
  · exact fun state hreaches => hreaches.one_le_depth (Int.le_refl 1)
  · exact fun depth behind next => ⟨step_opening_iff, step_closing_iff⟩

/-- The comment `/*/ /***/ */` in front of `*/`. Its first slash opens no comment and closes none, the asterisk in the
    comment inside it closes none, and the delimiter behind it is no part of it. -/
theorem comments_nest_overlapping :
    IsCommentContent ['/', ' ', '/', '*', '*', '*', '/', ' '] ∧
      "/*/ /***/ */*/".toList = inComment ['/', ' ', '/', '*', '*', '*', '/', ' '] ++ ['*', '/'] ∧
      Lexeme.lexeme '/' "*/ /***/ */*/".toList = .ok ⟨.comment "/ /***/ ", "/*/ /***/ */".toList, ['*', '/']⟩ ∧
      ∀ text, IsComment text → text <+: "/*/ /***/ */*/".toList → text = "/*/ /***/ */".toList := by
  have hasterisk : IsCommentContent ['*'] := .char (by simp [StartsMark]) .nil
  have hspace : IsCommentContent [' '] := .char (by simp [StartsMark]) .nil
  have hcontent : IsCommentContent ['/', ' ', '/', '*', '*', '*', '/', ' '] :=
    .char (by simp [StartsMark]) (.char (by simp [StartsMark]) (.comment hasterisk hspace))
  obtain ⟨hunique, hpiece, -⟩ := (comments_nest "/ /***/ */*/".toList).2.1 _ ['*', '/'] hcontent (by decide)
  exact ⟨hcontent, by decide, hpiece, hunique⟩

end HtmlTemplate
