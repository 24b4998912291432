import HtmlTemplate.Proofs.Token.References

/-!
# Why a text is not read, and where

A text that does not start with blank and from which no token is read has exactly one thing wrong with it, and one place
to blame (`FaultAt`). What is inside a literal or a quote is said without regard to how the readers go about it
(`Inside`): a reader that comes to such a stretch is at its end in the state in which it was at its start
(`Lexeme.literalFault_inside`, `Lexeme.quoteBody_inside`), and every text is such a stretch up to where the reader stops
(`Lexeme.exists_literal_stop`, `Lexeme.exists_quote_stop`).

The tokens in front of a fault are those of the text in front of it (`lexemes_flatMap_chars`). So a source that has a
fault is a source that has none, followed by a text that has one at its beginning (`tokenize_error`).

## Contents

* `CommentMark`, `commentMarks`, `StaysOpen` — comments that are not closed;
* `Inside` — stretches of text in which no delimiter closes;
* `FaultAt` — what is wrong at the beginning of a text;
* `Lexeme.commentBody_eq_none`, `literalBody_eq_error`, `quoteBody_eq_none`, `lexeme_eq_error` — the readers;
* `lexemes_flatMap_chars`, `lexemes_eq_append` — the text in front of a fault;
* `tokenize_error` — the main statement.
-/

namespace HtmlTemplate

/-! ## What can be wrong -/

/-- A delimiter of comments. -/
inductive CommentMark where
  | opening
  | closing
deriving DecidableEq

/-- The delimiters of comments in a text from left to right. No character belongs to two of them. -/
def commentMarks : List Char → List CommentMark
  | '*' :: '/' :: cs => .closing :: commentMarks cs
  | '/' :: '*' :: cs => .opening :: commentMarks cs
  | _ :: cs => commentMarks cs
  | [] => []

/-- From its first delimiter on the text never closes as many comments as it has opened. -/
def StaysOpen (cs : List Char) : Prop :=
  ∀ front, front <+: commentMarks cs → front ≠ [] → front.count .closing < front.count .opening

/-- A stretch of text in which nothing closes: characters other than those for which `stop` holds, characters behind a
    backslash, and what is embedded in it. -/
inductive Inside (stop : Char → Bool) (embedded : List Char → Prop) : List Char → Prop where
  | nil : Inside stop embedded []
  | char {c : Char} {cs : List Char} (stands : stop c = false) (backslash : c ≠ '\\')
    (rest : Inside stop embedded cs) : Inside stop embedded (c :: cs)
  | escaped (c : Char) {cs : List Char} (rest : Inside stop embedded cs) : Inside stop embedded ('\\' :: c :: cs)
  | embedded {text cs : List Char} (text_embedded : embedded text) (rest : Inside stop embedded cs) :
    Inside stop embedded (text ++ cs)

/-- A stretch of a literal: text and references. -/
abbrev InLiteral : List Char → Prop := Inside Lexeme.endsLiteralText IsReference

/-- A stretch of a quote, which holds text only. -/
abbrev InQuote : List Char → Prop := Inside (· = '"') fun _ => False

/-- Nothing follows, but perhaps one last backslash. -/
def IsEnd (cs : List Char) : Prop := cs = [] ∨ cs = ['\\']

/-- No token starts with the character `c` in front of `cs`. -/
structure StartsNoToken (c : Char) (cs : List Char) : Prop where
  punctuation : (Lexeme.punctuation c : Option (TokenKind (List Char))) = none
  name : Lexeme.isNameStart c = false
  delimiter : c ≠ '~' ∧ c ≠ '"' ∧ c ≠ '@'
  comment : c = '/' → cs.head? ≠ some '*'

/-- The text starts with no token, for this cause, which is blamed on the character behind those that are skipped. -/
inductive FaultAt : (cs : List Char) → (cause : ScanFault) → (skipped : List Char) → Prop where
  | comment {cs : List Char} (opened : StaysOpen ('/' :: '*' :: cs)) :
    FaultAt ('/' :: '*' :: cs) .unterminatedComment []
  | reference {cs : List Char} (path : ¬ StartsReference ('@' :: cs)) : FaultAt ('@' :: cs) .invalidReference []
  | referenceInLiteral {content cs : List Char} (before : InLiteral content) (path : ¬ StartsReference ('@' :: cs)) :
    FaultAt ('~' :: (content ++ '@' :: cs)) .invalidReference ('~' :: content)
  | literal {content tail : List Char} (before : InLiteral content) (ends : IsEnd tail) :
    FaultAt ('~' :: (content ++ tail)) .unterminatedLiteral []
  | quote {content tail : List Char} (before : InQuote content) (ends : IsEnd tail) :
    FaultAt ('"' :: (content ++ tail)) .unterminatedQuote []
  | other {c : Char} {cs : List Char} (none : StartsNoToken c cs) : FaultAt (c :: cs) (.unexpectedCharacter c) []

/-! ## Places in a construct -/

theorem Fault.behind_nil (fault : Fault) : fault.behind [] = fault := by
  unfold Fault.behind
  split <;> rfl

theorem Fault.behind_behind (fault : Fault) (front between : List Char) :
    (fault.behind between).behind front = fault.behind (front ++ between) := by
  obtain ⟨cause, skipped⟩ := fault
  cases cause with
  | invalidReference => simp [Fault.behind]
  | _ => rfl

namespace Inside

variable {stop : Char → Bool} {embedded : List Char → Prop} {front cs : List Char}

theorem append (hfront : Inside stop embedded front) (h : Inside stop embedded cs) :
    Inside stop embedded (front ++ cs) := by
  induction hfront with
  | nil => exact h
  | char stands backslash _ ih => exact .char stands backslash ih
  | escaped c _ ih => exact .escaped c ih
  | embedded text_embedded _ ih =>
    rw [List.append_assoc]
    exact .embedded text_embedded ih

end Inside

namespace Lexeme

variable {cs : List Char} {stop : Char → Bool}

/-! ## Comments -/

theorem forall_isPrefix_cons {α : Type} {P : List α → Prop} {first : α} {more : List α} :
    (∀ front, front <+: first :: more → P front) ↔ P [] ∧ ∀ front, front <+: more → P (first :: front) := by
  simp only [List.prefix_cons_iff, forall_eq_or_imp, forall_exists_index, and_imp]
  constructor
  · rintro ⟨hnil, hcons⟩
    exact ⟨hnil, fun front hfront => hcons _ front rfl hfront⟩
  · rintro ⟨hnil, hcons⟩
    refine ⟨hnil, ?_⟩
    rintro _ front rfl hfront
    exact hcons front hfront

/-- **A comment is not closed** if it opens as many comments as it closes, and one more, wherever one looks. -/
theorem commentBody_eq_none (depth : Nat) (cs : List Char) :
    commentBody depth cs = none ↔
      ∀ front, front <+: commentMarks cs → front.count .closing ≤ depth + front.count .opening := by
  fun_induction commentBody depth cs with
  | case1 => simp [commentMarks]
  | case2 cs =>
    rw [commentMarks, forall_isPrefix_cons]
    simp only [reduceCtorEq, false_iff, not_and, not_forall]
    exact fun _ => ⟨[], List.nil_prefix, by simp⟩
  | case3 depth cs ih =>
    rw [commentMarks, forall_isPrefix_cons, Option.map_eq_none_iff, ih]
    simp [Nat.add_right_comm]
  | case4 depth cs ih =>
    rw [commentMarks, forall_isPrefix_cons, Option.map_eq_none_iff, ih]
    simp [Nat.add_assoc, Nat.add_comm 1]
  | case5 depth c cs hclose hcloseInner hopen ih =>
    rw [Option.map_eq_none_iff, ih, commentMarks]
    · rintro more rfl rfl
      cases depth with
      | zero => exact hclose more rfl rfl rfl
      | succ depth => exact hcloseInner depth more rfl rfl rfl
    · exact hopen

theorem staysOpen_cons : StaysOpen ('/' :: '*' :: cs) ↔ commentBody 0 cs = none := by
  rw [commentBody_eq_none, StaysOpen, commentMarks, forall_isPrefix_cons]
  simp only [ne_eq, not_true_eq_false, IsEmpty.forall_iff, true_and, reduceCtorEq, not_false_eq_true, forall_const,
    List.count_cons_self, List.count_cons_of_ne, Nat.lt_succ_iff, Nat.zero_add]

/-! ## Runs of text -/

theorem escapedRun_char {c : Char} (hstop : stop c = false) (hc : c ≠ '\\') :
    escapedRun stop (c :: cs) =
      ⟨c :: (escapedRun stop cs).value, c :: (escapedRun stop cs).text, (escapedRun stop cs).rest⟩ := by
  rw [escapedRun, if_neg (by simp [hc, hstop])]
  exact fun _ _ hbackslash _ => hc hbackslash

theorem escapedRun_stop {c : Char} (hstop : stop c = true) (hc : c ≠ '\\') :
    escapedRun stop (c :: cs) = ⟨[], [], c :: cs⟩ := by
  rw [escapedRun, if_pos (by simp [hstop])]
  exact fun _ _ hbackslash _ => hc hbackslash

theorem escapedRun_end (h : IsEnd cs) : escapedRun stop cs = ⟨[], [], cs⟩ := by
  rcases h with rfl | rfl <;> rfl

theorem inside_escapedRun (stop : Char → Bool) (embedded : List Char → Prop) (cs : List Char) :
    Inside stop embedded (escapedRun stop cs).text := by
  fun_induction escapedRun stop cs with
  | case1 | case3 => exact .nil
  | case2 c cs run ih => exact .escaped c ih
  | case4 c cs hbackslash hstop run ih =>
    rw [Bool.or_eq_true, not_or, decide_eq_true_eq] at hstop
    exact .char (Bool.eq_false_iff.mpr hstop.2) hstop.1 ih

/-- A run ends with the text, or where it has to stop. -/
theorem escapedRun_rest (stop : Char → Bool) (cs : List Char) :
    IsEnd (escapedRun stop cs).rest ∨ ∃ c more, (escapedRun stop cs).rest = c :: more ∧ stop c = true := by
  fun_induction escapedRun stop cs with
  | case1 => exact .inl (.inl rfl)
  | case2 c cs run ih => exact ih
  | case3 c cs hbackslash hstop =>
    rcases Bool.or_eq_true_iff.mp hstop with hc | hc
    · obtain rfl := of_decide_eq_true hc
      cases cs with
      | nil => exact .inl (.inr rfl)
      | cons next more => exact absurd rfl (hbackslash next more rfl)
    · exact .inr ⟨c, cs, rfl, hc⟩
  | case4 c cs _ _ run ih => exact ih

/-! ## Literals -/

/-- What is wrong with a literal behind its opening delimiter. -/
def literalFault (cs : List Char) : Option Fault :=
  match literalBody cs with
  | .error fault => some fault
  | .ok _ => none

theorem literalBody_eq (cs : List Char) :
    literalBody cs =
      match escapedRun endsLiteralText cs with
      | ⟨value, text, '~' :: rest⟩ => .ok ⟨textSegments value text, text ++ ['~'], rest⟩
      | ⟨value, text, '@' :: more⟩ =>
        match reference more with
        | none => .error ⟨.invalidReference, text⟩
        | some ref =>
          match literalBody ref.rest with
          | .error fault => .error (fault.behind (text ++ '@' :: ref.text))
          | .ok tail =>
            .ok ⟨textSegments value text ++ (.reference ref.value, '@' :: ref.text) :: tail.value,
              text ++ '@' :: ref.text ++ tail.text, tail.rest⟩
      | _ => .error ⟨.unterminatedLiteral, []⟩ := by
  conv_lhs => rw [literalBody]
  split
  · rename_i hrun
    rw [hrun]
    rfl
  · rename_i hrun
    simp only [hrun]
    split
    · rename_i hnone
      rw [hnone]
    · rename_i ref hsome
      cases htail : literalBody ref.rest with
      | error fault => simp only [hsome, htail]
      | ok tail => simp only [hsome, htail]
  · rename_i hclose hopen
    split
    · rename_i hrun
      exact absurd hrun (hclose _ _ _)
    · rename_i hrun
      exact absurd hrun (hopen _ _ _)
    · rfl

theorem map_behind (fault : Option Fault) (front between : List Char) :
    (fault.map (Fault.behind between)).map (Fault.behind front) = fault.map (Fault.behind (front ++ between)) := by
  rw [Option.map_map]
  congr 1
  funext fault
  exact fault.behind_behind front between

/-- The characters of a run of text are not to blame. -/
theorem literalFault_run (cs : List Char) :
    literalFault cs = (literalFault (escapedRun endsLiteralText cs).rest).map
      (Fault.behind (escapedRun endsLiteralText cs).text) := by
  have hrest := escapedRun_rest endsLiteralText cs
  generalize hrun : escapedRun endsLiteralText cs = run at hrest ⊢
  obtain ⟨value, text, rest⟩ := run
  dsimp only at hrest ⊢
  unfold literalFault
  rcases hrest with hend | ⟨c, more, rfl, hc⟩
  · rw [literalBody_eq cs, literalBody_eq rest, hrun, escapedRun_end hend]
    rcases hend with rfl | rfl <;> rfl
  · rcases Bool.or_eq_true_iff.mp hc with htilde | hat
    · obtain rfl := of_decide_eq_true htilde
      rw [literalBody_eq cs, literalBody_eq ('~' :: more), hrun, escapedRun_stop rfl (by decide)]
      rfl
    · obtain rfl := of_decide_eq_true hat
      rw [literalBody_eq cs, literalBody_eq ('@' :: more), hrun, escapedRun_stop rfl (by decide)]
      cases href : reference more with
      | none => simp [href, Fault.behind]
      | some ref =>
        simp only [href]
        cases literalBody ref.rest with
        | error fault => exact congrArg some (fault.behind_behind text ('@' :: ref.text)).symm
        | ok tail => rfl

theorem literalFault_end (h : IsEnd cs) : literalFault cs = some ⟨.unterminatedLiteral, []⟩ := by
  unfold literalFault
  rw [literalBody_eq, escapedRun_end h]
  rcases h with rfl | rfl <;> rfl

theorem literalFault_close (cs : List Char) : literalFault ('~' :: cs) = none := by
  unfold literalFault
  rw [literalBody_eq, escapedRun_stop rfl (by decide)]
  rfl

theorem literalFault_reference_none (h : reference cs = none) :
    literalFault ('@' :: cs) = some ⟨.invalidReference, []⟩ := by
  unfold literalFault
  rw [literalBody_eq, escapedRun_stop rfl (by decide)]
  simp only [h]

theorem literalFault_reference {ref : Piece Reference} (h : reference cs = some ref) :
    literalFault ('@' :: cs) = (literalFault ref.rest).map (Fault.behind ('@' :: ref.text)) := by
  unfold literalFault
  rw [literalBody_eq, escapedRun_stop rfl (by decide)]
  simp only [h, List.nil_append]
  cases literalBody ref.rest <;> rfl

theorem literalFault_char {c : Char} (h : IsPlainInLiteral c) :
    literalFault (c :: cs) = (literalFault cs).map (Fault.behind [c]) := by
  rw [literalFault_run, escapedRun_char h.1 h.2, literalFault_run cs]
  exact (map_behind _ [c] _).symm

theorem literalFault_escaped (c : Char) (cs : List Char) :
    literalFault ('\\' :: c :: cs) = (literalFault cs).map (Fault.behind ['\\', c]) := by
  rw [literalFault_run, escapedRun, literalFault_run cs]
  exact (map_behind _ ['\\', c] _).symm

theorem literalFault_behind_nil (cs : List Char) : (literalFault cs).map (Fault.behind []) = literalFault cs := by
  rw [funext Fault.behind_nil]
  exact Option.map_id'

theorem literalFault_plain {text : List Char} (h : ∀ c ∈ text, IsPlainInLiteral c) (cs : List Char) :
    literalFault (text ++ cs) = (literalFault cs).map (Fault.behind text) := by
  induction text with
  | nil => exact (literalFault_behind_nil cs).symm
  | cons c text ih =>
    obtain ⟨hc, htext⟩ := List.forall_mem_cons.mp h
    rw [List.cons_append, literalFault_char hc, ih htext, map_behind]
    rfl

/-- A reference is not to blame, even where the reader goes on with it behind its end. -/
theorem literalFault_isReference {text : List Char} (h : IsReference text) (cs : List Char) :
    literalFault (text ++ cs) = (literalFault cs).map (Fault.behind text) := by
  obtain ⟨escape, body, hparts⟩ := h.exists_parts
  obtain ⟨ref, href, body', htext, hplain⟩ := hparts.exists_reference cs
  have hread := (reference_readFrom href).append
  rw [htext, List.append_assoc, List.append_assoc, List.append_cancel_left_eq] at hread
  -- The text behind `escape` is a run of text from either end of the reference.
  have hsame : (literalFault cs).map (Fault.behind body) = (literalFault ref.rest).map (Fault.behind body') := by
    rw [← literalFault_plain hparts.plain, ← literalFault_plain hplain, hread]
  calc literalFault (text ++ cs)
      = literalFault ('@' :: (escape ++ body ++ cs)) := by rw [hparts.eq_append]; rfl
    _ = (literalFault ref.rest).map (Fault.behind ('@' :: escape ++ body')) := by
        rw [literalFault_reference href, htext]
        rfl
    _ = ((literalFault ref.rest).map (Fault.behind body')).map (Fault.behind ('@' :: escape)) := (map_behind ..).symm
    _ = (literalFault cs).map (Fault.behind text) := by
        rw [← hsame, map_behind, hparts.eq_append]
        rfl

/-- **What is inside a literal is not to blame** for what is wrong with it. -/
theorem literalFault_inside {content : List Char} (h : InLiteral content) (cs : List Char) :
    literalFault (content ++ cs) = (literalFault cs).map (Fault.behind content) := by
  induction h with
  | nil => exact (literalFault_behind_nil cs).symm
  | char stands backslash _ ih =>
    rw [List.cons_append, literalFault_char ⟨stands, backslash⟩, ih, map_behind]
    rfl
  | escaped c _ ih =>
    rw [List.cons_append, List.cons_append, literalFault_escaped, ih, map_behind]
    rfl
  | embedded isReference _ ih => rw [List.append_assoc, literalFault_isReference isReference, ih, map_behind]

/-- What stops the reader of literals behind their opening delimiter. -/
inductive LiteralStop : List Char → Prop where
  | close (cs : List Char) : LiteralStop ('~' :: cs)
  | reference {cs : List Char} (path : ¬ StartsReference ('@' :: cs)) : LiteralStop ('@' :: cs)
  | ends {cs : List Char} (ends : IsEnd cs) : LiteralStop cs

/-- Any text is inside a literal up to where the reader stops. -/
theorem exists_literal_stop (cs : List Char) :
    ∃ content tail, cs = content ++ tail ∧ InLiteral content ∧ LiteralStop tail := by
  -- By induction on the length: behind a run of text and a reference the text is shorter.
  induction hlength : cs.length using Nat.strong_induction_on generalizing cs with
  | _ length ih =>
    subst hlength
    have happend := escapedRun_append endsLiteralText cs
    have hinside := inside_escapedRun endsLiteralText IsReference cs
    rcases escapedRun_rest endsLiteralText cs with hend | ⟨c, more, hrest, hc⟩
    · exact ⟨_, _, happend.symm, hinside, .ends hend⟩
    · rw [hrest] at happend
      rcases Bool.or_eq_true_iff.mp hc with htilde | hat
      · obtain rfl := of_decide_eq_true htilde
        exact ⟨_, _, happend.symm, hinside, .close more⟩
      · obtain rfl := of_decide_eq_true hat
        cases href : reference more with
        | none => exact ⟨_, _, happend.symm, hinside, .reference (reference_eq_none.mp href)⟩
        | some ref =>
          have hread := reference_readFrom href
          have hlength : ref.rest.length < cs.length := by
            rw [← happend, List.length_append, List.length_cons]
            have := hread.length
            omega
          obtain ⟨content, tail, hcontent, hinsideRest, hstop⟩ := ih _ hlength ref.rest rfl
          refine ⟨(escapedRun endsLiteralText cs).text ++ ('@' :: ref.text ++ content), tail, ?_, ?_, hstop⟩
          · conv_lhs => rw [← happend, ← hread.append, hcontent]
            simp
          · exact hinside.append (.embedded (isReference_of_reference href) hinsideRest)

theorem literalBody_eq_error {fault : Fault} : literalBody cs = .error fault ↔ literalFault cs = some fault := by
  unfold literalFault
  cases literalBody cs <;> simp

/-! ## Quotes -/

theorem escapedRun_inside {content : List Char} (h : Inside stop (fun _ => False) content) (cs : List Char) :
    (escapedRun stop (content ++ cs)).rest = (escapedRun stop cs).rest := by
  induction h with
  | nil => rfl
  | char stands backslash _ ih =>
    rw [List.cons_append, escapedRun_char stands backslash]
    exact ih
  | escaped c _ ih => exact ih
  | embedded text_embedded => exact text_embedded.elim

theorem quoteBody_eq_none :
    quoteBody cs = none ↔ ∃ content tail, cs = content ++ tail ∧ InQuote content ∧ IsEnd tail := by
  unfold quoteBody
  constructor
  · intro hnone
    rcases escapedRun_rest (· = '"') cs with hend | ⟨c, more, hrest, hc⟩
    · exact ⟨_, _, (escapedRun_append _ cs).symm, inside_escapedRun _ _ cs, hend⟩
    · obtain rfl := of_decide_eq_true hc
      split at hnone
      · cases hnone
      · rename_i hclose
        exact absurd (by rw [← hrest]) (hclose _ _ more)
  · rintro ⟨content, tail, rfl, hcontent, hend⟩
    have hrest := escapedRun_inside hcontent tail
    rw [escapedRun_end hend] at hrest
    split
    · rename_i hrun
      rw [hrun] at hrest
      rcases hend with rfl | rfl <;> cases hrest
    · rfl

/-! ## Tokens -/

theorem faultAt_of_literalFault {fault : Fault} (h : literalFault cs = some fault) :
    FaultAt ('~' :: cs) (fault.behind ['~']).cause (fault.behind ['~']).skipped := by
  obtain ⟨content, tail, rfl, hcontent, hstop⟩ := exists_literal_stop cs
  rw [literalFault_inside hcontent] at h
  cases hstop with
  | close more =>
    rw [literalFault_close] at h
    cases h
  | reference path =>
    rw [literalFault_reference_none (reference_eq_none.mpr path)] at h
    cases h
    show FaultAt _ .invalidReference ('~' :: (content ++ []))
    rw [List.append_nil]
    exact .referenceInLiteral hcontent path
  | ends hend =>
    rw [literalFault_end hend] at h
    cases h
    exact .literal hcontent hend

/-- **No token is read where a fault is**, and the reader says which one and where. -/
theorem lexeme_eq_error {c : Char} {cause : ScanFault} {skipped : List Char} :
    lexeme c cs = .error ⟨cause, skipped⟩ ↔ FaultAt (c :: cs) cause skipped := by
  constructor
  · intro h
    unfold lexeme at h
    split at h
    · split at h
      · rename_i hnone
        cases h
        exact .comment (staysOpen_cons.mpr hnone)
      · cases h
    · split at h
      · rename_i fault hfault
        have hliteral := faultAt_of_literalFault (literalBody_eq_error.mp hfault)
        rw [Except.error.inj h] at hliteral
        exact hliteral
      · cases h
    · split at h
      · rename_i hnone
        cases h
        obtain ⟨content, tail, rfl, hcontent, hend⟩ := quoteBody_eq_none.mp hnone
        exact .quote hcontent hend
      · cases h
    · split at h
      · rename_i hnone
        cases h
        exact .reference (reference_eq_none.mp hnone)
      · cases h
    · rename_i htilde hquote hat hcomment
      split at h
      · cases h
      · rename_i hpunctuation
        split at h
        · cases h
        · rename_i hname
          cases h
          refine .other ⟨hpunctuation, Bool.eq_false_iff.mpr hname, ⟨htilde, hquote, hat⟩, ?_⟩
          rintro rfl hhead
          obtain ⟨more, rfl⟩ := List.head?_eq_some_iff.mp hhead
          exact hcomment more rfl rfl
  · intro h
    cases h with
    | comment opened =>
      unfold lexeme
      simp only [staysOpen_cons.mp opened]
    | reference path =>
      unfold lexeme
      simp only [reference_eq_none.mpr path]
    | @referenceInLiteral content more before path =>
      have hfault : literalFault (content ++ '@' :: more) = some ⟨.invalidReference, content⟩ := by
        rw [literalFault_inside before, literalFault_reference_none (reference_eq_none.mpr path)]
        simp [Fault.behind]
      unfold lexeme
      simp only [literalBody_eq_error.mpr hfault]
      rfl
    | @literal content tail before ends =>
      have hfault : literalFault (content ++ tail) = some ⟨.unterminatedLiteral, []⟩ := by
        rw [literalFault_inside before, literalFault_end ends]
        rfl
      unfold lexeme
      simp only [literalBody_eq_error.mpr hfault]
      rfl
    | quote before ends =>
      unfold lexeme
      simp only [quoteBody_eq_none.mpr ⟨_, _, rfl, before, ends⟩]
    | other none =>
      unfold lexeme
      split
      · exact absurd rfl (none.comment rfl)
      · exact absurd rfl none.delimiter.1
      · exact absurd rfl none.delimiter.2.1
      · exact absurd rfl none.delimiter.2.2
      · simp [none.punctuation, none.name]

end Lexeme

/-- There is one thing wrong and one place to blame. -/
theorem FaultAt.unique {cs : List Char} {cause cause' : ScanFault} {skipped skipped' : List Char}
    (h : FaultAt cs cause skipped) (h' : FaultAt cs cause' skipped') : cause' = cause ∧ skipped' = skipped := by
  cases cs with
  | nil => cases h
  | cons c cs =>
    have hsame := (Lexeme.lexeme_eq_error.mpr h').symm.trans (Lexeme.lexeme_eq_error.mpr h)
    cases hsame
    exact ⟨rfl, rfl⟩

/-! ## The text in front of a fault -/

/-- **Lexemes are read again** from their characters alone. -/
theorem lexemes_flatMap_chars (cs : List Char) :
    lexemes ((lexemes cs).1.flatMap Lexeme.chars) = ((lexemes cs).1, none) := by
  fun_induction lexemes cs with
  | case1 => rw [List.flatMap_nil, lexemes]
  | case2 => rw [List.flatMap_nil, lexemes]
  | case3 c cs piece hpiece following ih =>
    have hfollowing := lexemes_append (piece.rest.dropWhile Lexeme.isBlank)
    have hrest : piece.rest.takeWhile Lexeme.isBlank ++ following.1.flatMap Lexeme.chars <+: piece.rest := by
      conv_rhs => rw [← List.takeWhile_append_dropWhile (p := Lexeme.isBlank) (l := piece.rest)]
      exact (List.prefix_append_right_inj _).mpr hfollowing
    obtain ⟨tail, htext, hcut⟩ := Lexeme.lexeme_cut hpiece (.inl (.of_isPrefix hrest))
    rw [List.flatMap_cons, Lexeme.chars, List.append_assoc, htext, List.cons_append, lexemes_cons hcut]
    unfold Piece.cut
    have hstops := (Lexeme.Ahead.of_isPrefix hfollowing).stops
    rw [Lexeme.takeWhile_cut hstops, Lexeme.dropWhile_cut hstops, ih, htext]

/-- A fault stands behind the lexemes, and not at a blank. -/
theorem lexemes_eq_append {cs : List Char} {fault : Fault} (hhead : ∀ c ∈ cs.head?, Lexeme.isBlank c = false)
    (h : (lexemes cs).2 = some fault) :
    ∃ c more, cs = (lexemes cs).1.flatMap Lexeme.chars ++ c :: more ∧ Lexeme.isBlank c = false ∧
      Lexeme.lexeme c more = .error fault := by
  fun_induction lexemes cs with
  | case1 => cases h
  | case2 c cs fault' hfault =>
    cases h
    exact ⟨c, cs, rfl, hhead c rfl, hfault⟩
  | case3 c cs piece hpiece following ih =>
    obtain ⟨d, more, hmore, hd, hfault⟩ := ih (Lexeme.stops_dropWhile Lexeme.isBlank piece.rest) h
    refine ⟨d, more, ?_, hd, hfault⟩
    rw [List.flatMap_cons, Lexeme.chars, List.append_assoc, List.append_assoc, ← hmore,
      List.takeWhile_append_dropWhile, (Lexeme.lexeme_readFrom hpiece).append]

/-- **A source is read up to its fault.** -/
theorem scan_of_fault {code : String} (file : Nat) {fault : Fault}
    (h : (lexemes (code.toList.dropWhile Lexeme.isBlank)).2 = some fault) :
    ∃ u c v, code.toList = u ++ c :: v ∧ Lexeme.isBlank c = false ∧ Lexeme.lexeme c v = .error fault ∧
      scan code file =
        ⟨(scan code file).tokens,
          some (.fault fault.cause ⟨file, (Position.first.after (u ++ fault.skipped)).oneColumn⟩)⟩ ∧
      scan (String.ofList u) file =
        ⟨(scan code file).tokens ++ [⟨.eof, ⟨Position.first.after u, Position.first.after u⟩, file⟩], none⟩ := by
  obtain ⟨c, v, hrest, hc, hfault⟩ := lexemes_eq_append (Lexeme.stops_dropWhile Lexeme.isBlank code.toList) h
  have hfront := lexemes_append (code.toList.dropWhile Lexeme.isBlank)
  refine ⟨code.toList.takeWhile Lexeme.isBlank ++
    (lexemes (code.toList.dropWhile Lexeme.isBlank)).1.flatMap Lexeme.chars, c, v, ?_, hc, hfault, ?_, ?_⟩
  · rw [List.append_assoc, ← hrest, List.takeWhile_append_dropWhile]
  · unfold scan
    simp only [h, Lexeme.behind_eq_after, Position.after_append]
  · unfold scan
    have hstops := (Lexeme.Ahead.of_isPrefix hfront).stops
    rw [String.toList_ofList, Lexeme.takeWhile_cut hstops, Lexeme.dropWhile_cut hstops, lexemes_flatMap_chars]
    simp only [h, Lexeme.behind_eq_after, Position.after_append]

/-- **What is wrong with a source, and where.** A source that has no tokens is some text that has, and behind it, not
    separated by blank, a text that starts with none. There is exactly one thing wrong with that text, and the error
    says which one and names the place to blame in the source. -/
theorem tokenize_error {code : String} {file : Nat} {error : ScanError} (h : tokenize code file = .error error) :
    ∃ u v : List Char, code.toList = u ++ v ∧ v ≠ [] ∧ (∀ c ∈ v.head?, Lexeme.isBlank c = false) ∧
      tokenize (String.ofList u) file = .ok ((scan code file).tokens ++
        [⟨.eof, ⟨Position.first.after u, Position.first.after u⟩, file⟩]) ∧
      ∃ cause skipped, FaultAt v cause skipped ∧
        (∀ cause' skipped', FaultAt v cause' skipped' → cause' = cause ∧ skipped' = skipped) ∧
        error = .fault cause ⟨file, (Position.first.after (u ++ skipped)).oneColumn⟩ := by
  cases hfault : (lexemes (code.toList.dropWhile Lexeme.isBlank)).2 with
  | none =>
    simp only [tokenize, scan, hfault] at h
    cases h
  | some fault =>
    obtain ⟨u, c, v, hcode, hc, hlexeme, hscan, hfront⟩ := scan_of_fault file hfault
    have hat : FaultAt (c :: v) fault.cause fault.skipped := Lexeme.lexeme_eq_error.mp hlexeme
    refine ⟨u, c :: v, hcode, List.cons_ne_nil c v, ?_, ?_, fault.cause, fault.skipped, hat, fun _ _ => hat.unique, ?_⟩
    · exact Lexeme.stops_cons hc
    · unfold tokenize
      rw [hfront]
    · unfold tokenize at h
      rw [hscan] at h
      exact (Except.error.inj h).symm

/-- A path that is not closed in parentheses is blamed in the middle of a literal, whatever else the literal holds. -/
theorem tokenize_error_parenthesis :
    let code := "a ~b\\~@c.@(d~"
    let error := ScanError.fault .invalidReference ⟨0, ⟨⟨1, 10⟩, ⟨1, 11⟩⟩⟩
    tokenize code 0 = .error error ∧
      ∃ u v : List Char, code.toList = u ++ v ∧ v ≠ [] ∧ (∀ c ∈ v.head?, Lexeme.isBlank c = false) ∧
        tokenize (String.ofList u) 0 = .ok ((scan code 0).tokens ++
          [⟨.eof, ⟨Position.first.after u, Position.first.after u⟩, 0⟩]) ∧
        ∃ cause skipped, FaultAt v cause skipped ∧
          (∀ cause' skipped', FaultAt v cause' skipped' → cause' = cause ∧ skipped' = skipped) ∧
          error = .fault cause ⟨0, (Position.first.after (u ++ skipped)).oneColumn⟩ := by
  have herror : tokenize "a ~b\\~@c.@(d~" 0 = .error (.fault .invalidReference ⟨0, ⟨⟨1, 10⟩, ⟨1, 11⟩⟩⟩) := by
    decide +kernel
  exact ⟨herror, tokenize_error herror⟩

end HtmlTemplate
