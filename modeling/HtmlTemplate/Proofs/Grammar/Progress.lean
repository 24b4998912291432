import HtmlTemplate.Proofs.Grammar.InTurn

/-!
# Definitions call by call

The next definition can be asked for again and again, each time against other internal templates, and also after an
error. Every call goes on where the one before it stopped. No reader gives back a token, and behind a fault it stands
right behind the token that is blamed (`TokenReader.Composed.rest_suffix`, `blames`). So each call takes a stretch of
the tokens (`Definition.Takes`), which is not empty unless there is nothing left to be read, and the stretches lie one
behind the other (`Definition.calls_progress`).

## Contents

* `TokenReader.Composed.rest_suffix`, `blames` — what readers leave;
* `Definition.Takes`, `exists_takes` — what one call takes;
* `Definition.leftAt`, `answerAt` — one call after the other;
* `Definition.countP_answerAt_le`, `isEnd_answerAt_of_le` — how many answers there can be;
* `Definition.definitions_eq_answers` — all definitions at once;
* `Definition.calls_progress` — the main statement.
-/

namespace HtmlTemplate

open Grammar

/-! ## What readers leave -/

namespace TokenReader

variable {α : Type} {file : Nat} {last : Option Token} {tokens rest : List Token}

theorem skipComments_suffix (tokens : List Token) : (skipComments tokens).rest <:+ tokens := by
  induction tokens with
  | nil => exact List.suffix_rfl
  | cons token tokens ih =>
    rw [skipComments]
    split
    · exact ih.trans (List.suffix_cons token tokens)
    · exact List.suffix_rfl

/-- No reader gives back a token. -/
theorem Composed.rest_suffix {reader : TokenReader α} (h : Composed file last reader) (tokens : List Token) :
    (reader tokens).rest <:+ tokens := by
  induction h generalizing tokens with
  | pure | fault | endOfTokens => exact List.suffix_rfl
  | next _ ih =>
    cases tokens with
    | nil => exact List.suffix_rfl
    | cons token tokens => exact (ih token tokens).trans (List.suffix_cons token tokens)
  | peekKind _ ih => exact ih _ tokens
  | skipComments _ ih =>
    have hskip := skipComments_suffix tokens
    rw [bind_apply]
    cases hread : TokenReader.skipComments tokens with
    | ok _ rest =>
      rw [hread] at hskip
      exact (ih rest).trans hskip
    | error error rest => exact absurd hread skipComments_ne_error
  | @bind _ _ _ reader _ _ _ ihReader ihBehind =>
    have hreader := ihReader tokens
    rw [bind_apply]
    cases hread : reader tokens with
    | ok value rest =>
      rw [hread] at hreader
      exact (ihBehind value rest).trans hreader
    | error error rest =>
      rw [hread] at hreader
      exact hreader

/-- **Behind a fault** stands what follows the token that is blamed. -/
theorem Composed.blames {reader : TokenReader α} (h : Composed file last reader) {cause : SyntaxFault} {token : Token}
    (hfault : reader tokens = .error (.fault cause token) rest) : token :: rest <:+ last.toList ++ tokens := by
  induction h generalizing tokens with
  | pure | endOfTokens => cases hfault
  | fault cause token =>
    cases hfault
    exact List.suffix_rfl
  | next _ ih =>
    cases tokens with
    | nil => cases hfault
    | cons first tokens => exact (ih first hfault).trans (List.suffix_append _ _)
  | peekKind _ ih => exact ih _ hfault
  | skipComments _ ih =>
    have hskip := skipComments_suffix tokens
    rw [bind_apply] at hfault
    cases hread : TokenReader.skipComments tokens with
    | ok _ middle =>
      rw [hread] at hfault hskip
      exact ((ih hfault).trans hskip).trans (List.suffix_append _ _)
    | error error middle => exact absurd hread skipComments_ne_error
  | @bind _ _ _ reader _ hcomposed _ ihReader ihBehind =>
    have hreader := hcomposed.rest_suffix tokens
    rw [bind_apply] at hfault
    cases hread : reader tokens with
    | ok value middle =>
      rw [hread] at hfault hreader
      exact ((ihBehind value hfault).trans hreader).trans (List.suffix_append _ _)
    | error error middle =>
      rw [hread] at hfault
      cases hfault
      exact ihReader hread

end TokenReader

/-- There was no definition to be read. -/
def Reading.isEnd {α : Type} : Reading (Option α) → Bool
  | ok none _ => true
  | _ => false

namespace Definition

open TokenReader

variable {scope : CallScope} {tokens rest : List Token}

/-! ## One call -/

/-- What a call for the next definition takes, by what it answers. -/
inductive Takes (scope : CallScope) : Reading (Option Definition) → List Token → Prop where
  /-- A definition from its keyword to the brace that closes its block, and the comments in front of it. -/
  | definition (comments : List Comment) (d : Def) (rest : List Token) :
    Takes scope (.ok (some (d.definition scope)) rest) (commentTokens comments ++ d.tokens)
  /-- Everything up to the token that is blamed. -/
  | fault (before : List Token) (cause : SyntaxFault) (token : Token) (rest : List Token) :
    Takes scope (.error (.fault cause token) rest) (before ++ [token])
  | endOfTokens (first : Token) (more : List Token) (file : Nat) (rest : List Token) :
    Takes scope (.error (.endOfTokens file) rest) (first :: more)
  /-- Nothing but comments at the end of the tokens. -/
  | comments (comments : List Comment) : Takes scope (.ok none []) (commentTokens comments)
  | eof (comments : List Comment) (eof : Location) (rest : List Token) :
    Takes scope (.ok none rest) (commentTokens comments ++ [eof.token .eof])

theorem Takes.ne_nil {reading : Reading (Option Definition)} {taken : List Token} (h : Takes scope reading taken)
    (hend : reading.isEnd = false) : taken ≠ [] := by
  cases h with
  | definition comments d rest => exact List.append_ne_nil_of_right_ne_nil _ d.tokens_ne_nil
  | fault => simp
  | endOfTokens => simp
  | comments | eof => cases hend

/-- An error is noticed behind the comments. -/
theorem takes_of_error {error : SyntaxError} (h : nextDefinition scope tokens = .error error rest) :
    ∃ taken, tokens = taken ++ rest ∧ Takes scope (.error error rest) taken := by
  obtain ⟨comments, token, more, rfl, ⟨rfl, rfl⟩ | ⟨-, hbehind⟩⟩ := nextDefinition_eq_error h
  · exact ⟨commentTokens comments ++ [token], by simp, .fault _ _ token rest⟩
  · obtain ⟨reader, hreader, happly⟩ := @afterKeyword_composed scope none token more
    rw [happly] at hbehind
    cases error with
    | fault cause blamed =>
      obtain ⟨before, rfl⟩ := hreader.blames hbehind
      exact ⟨commentTokens comments ++ token :: before ++ [blamed], by simp, .fault _ _ blamed rest⟩
    | endOfTokens file =>
      have hsuffix := hreader.rest_suffix more
      rw [hbehind] at hsuffix
      obtain ⟨before, rfl⟩ := hsuffix
      obtain ⟨first, others, hfirst⟩ := List.exists_cons_of_ne_nil
        (List.append_ne_nil_of_right_ne_nil (commentTokens comments) (List.cons_ne_nil token before))
      refine ⟨first :: others, ?_, .endOfTokens first others file rest⟩
      rw [← hfirst]
      simp [Reading.rest]

/-- **A call takes a stretch** from the front of the tokens. -/
theorem exists_takes (scope : CallScope) (tokens : List Token) :
    ∃ taken, tokens = taken ++ (nextDefinition scope tokens).rest ∧
      Takes scope (nextDefinition scope tokens) taken := by
  cases hread : nextDefinition scope tokens with
  | ok found rest =>
    cases found with
    | none =>
      obtain ⟨comments, ⟨rfl, rfl⟩ | ⟨eof, rfl⟩⟩ := nextDefinition_eq_none.mp hread
      · exact ⟨commentTokens comments, by simp [Reading.rest], .comments comments⟩
      · exact ⟨commentTokens comments ++ [eof.token .eof], by simp [Reading.rest], .eof comments eof rest⟩
    | some definition =>
      obtain ⟨comments, d, rfl, rfl⟩ := nextDefinition_eq_some.mp hread
      exact ⟨commentTokens comments ++ d.tokens, by simp [Reading.rest], .definition comments d rest⟩
  | error error rest => exact takes_of_error hread

/-! ## One call after the other -/

/-- The tokens that are left in front of the call number `n`, the calls being made against these scopes. -/
def leftAt (scopes : Nat → CallScope) (tokens : List Token) : (n : Nat) → List Token
  | 0 => tokens
  | n + 1 => (nextDefinition (scopes n) (leftAt scopes tokens n)).rest

/-- The answer of the call number `n`. -/
def answerAt (scopes : Nat → CallScope) (tokens : List Token) (n : Nat) : Reading (Option Definition) :=
  nextDefinition (scopes n) (leftAt scopes tokens n)

variable {scopes : Nat → CallScope}

/-- The calls behind the first one go on with what it has left. -/
theorem leftAt_succ_eq (scopes : Nat → CallScope) (tokens : List Token) (n : Nat) :
    leftAt scopes tokens (n + 1) = leftAt (fun k => scopes (k + 1)) (nextDefinition (scopes 0) tokens).rest n := by
  induction n with
  | zero => rfl
  | succ n ih => rw [leftAt, ih, leftAt]

theorem answerAt_succ_eq (scopes : Nat → CallScope) (tokens : List Token) (n : Nat) :
    answerAt scopes tokens (n + 1) = answerAt (fun k => scopes (k + 1)) (nextDefinition (scopes 0) tokens).rest n := by
  rw [answerAt, leftAt_succ_eq, answerAt]

/-- The stretches that are taken lie one behind the other. -/
theorem eq_flatMap_append_leftAt {taken : Nat → List Token}
    (htaken : ∀ n, leftAt scopes tokens n = taken n ++ leftAt scopes tokens (n + 1)) (n : Nat) :
    tokens = (List.range n).flatMap taken ++ leftAt scopes tokens n := by
  induction n with
  | zero => rfl
  | succ n ih =>
    rw [List.range_succ, List.flatMap_append, List.flatMap_singleton, List.append_assoc, ← htaken]
    exact ih

/-- **Every answer is paid for with a token.** -/
theorem countP_answerAt_le (scopes : Nat → CallScope) (tokens : List Token) (n : Nat) :
    (List.range n).countP (fun k => !(answerAt scopes tokens k).isEnd) + (leftAt scopes tokens n).length ≤
      tokens.length := by
  induction n with
  | zero => simp [leftAt]
  | succ n ih =>
    obtain ⟨taken, hleft, htaken⟩ := exists_takes (scopes n) (leftAt scopes tokens n)
    have hlength := congrArg List.length hleft
    rw [List.length_append] at hlength
    rw [List.range_succ, List.countP_append, List.countP_singleton, leftAt]
    cases hend : (answerAt scopes tokens n).isEnd with
    | true =>
      simp only [Bool.not_true, Bool.false_eq_true, if_false]
      omega
    | false =>
      have hpos := List.length_pos_iff.mpr (htaken.ne_nil hend)
      simp only [Bool.not_false, if_true]
      omega

theorem leftAt_suffix (scopes : Nat → CallScope) (tokens : List Token) (n : Nat) :
    leftAt scopes tokens n <:+ tokens := by
  induction n with
  | zero => exact List.suffix_rfl
  | succ n ih =>
    obtain ⟨taken, hleft, -⟩ := exists_takes (scopes n) (leftAt scopes tokens n)
    exact List.IsSuffix.trans ⟨taken, hleft.symm⟩ ih

/-! ## Behind the end -/

/-- Nothing stands behind the end of the source. -/
def EndsLast (tokens : List Token) : Prop := ∀ token ∈ tokens.dropLast, token.kind ≠ .eof

/-- The tokens of a source are such, and so is what is in front of one of them. -/
theorem endsLast_of_isPrefix {code : String} {file : Nat} (h : tokens <+: (scan code file).tokens) :
    EndsLast tokens := by
  have hall : EndsLast (scan code file).tokens := by
    obtain ⟨inner, eof, hscan, hinner⟩ | ⟨inner, cause, place, hscan, hinner, -⟩ := scan_eq code file
    · rw [hscan, EndsLast, List.dropLast_concat]
      exact hinner
    · rw [hscan]
      exact fun token htoken => hinner token (List.mem_of_mem_dropLast htoken)
  obtain ⟨more, hmore⟩ := h
  intro token htoken
  apply hall
  rw [← hmore]
  by_cases hnil : more = []
  · simpa [hnil] using htoken
  · rw [List.dropLast_append_of_ne_nil hnil]
    exact List.mem_append_left _ (List.mem_of_mem_dropLast htoken)

theorem EndsLast.of_suffix (h : EndsLast tokens) (hrest : rest <:+ tokens) : EndsLast rest := by
  obtain ⟨before, rfl⟩ := hrest
  intro token htoken
  apply h
  by_cases hnil : rest = []
  · simp [hnil] at htoken
  · rw [List.dropLast_append_of_ne_nil hnil]
    exact List.mem_append_right _ htoken

/-- Where there is no definition to be read, no token is left behind. -/
theorem rest_eq_nil_of_isEnd (h : EndsLast tokens) (hend : (nextDefinition scope tokens).isEnd = true) :
    (nextDefinition scope tokens).rest = [] := by
  obtain ⟨taken, htokens, htaken⟩ := exists_takes scope tokens
  cases hread : nextDefinition scope tokens with
  | error error rest =>
    rw [hread] at hend
    cases hend
  | ok found rest =>
    rw [hread] at hend htokens htaken
    cases htaken with
    | definition => cases hend
    | comments => rfl
    | eof comments eof rest =>
      by_contra hne
      apply h (eof.token .eof) _ rfl
      rw [htokens, List.dropLast_append_of_ne_nil hne]
      simp

/-- **Behind the end there is nothing.** -/
theorem isEnd_answerAt_of_le (h : EndsLast tokens) {n m : Nat} (hle : n ≤ m)
    (hend : (answerAt scopes tokens n).isEnd = true) : (answerAt scopes tokens m).isEnd = true := by
  induction m, hle using Nat.le_induction with
  | base => exact hend
  | succ m _ ih =>
    have hends : EndsLast (leftAt scopes tokens m) := h.of_suffix (leftAt_suffix scopes tokens m)
    have hleft : leftAt scopes tokens (m + 1) = [] := rest_eq_nil_of_isEnd hends ih
    rw [answerAt, hleft]
    rfl

/-! ## All definitions at once -/

/-- The definitions that are found in turn are the answers of the calls in front of the one that ends it. -/
theorem inTurn_answers (scope : CallScope) (tokens : List Token) :
    (∀ n definition, (inTurn scope tokens).1[n]? = some definition →
      ∃ rest, answerAt (fun _ => scope) tokens n = .ok (some definition) rest) ∧
    match (inTurn scope tokens).2 with
    | none => ∃ rest, answerAt (fun _ => scope) tokens (inTurn scope tokens).1.length = .ok none rest
    | some error => ∃ rest, answerAt (fun _ => scope) tokens (inTurn scope tokens).1.length = .error error rest := by
  induction hlength : tokens.length using Nat.strong_induction_on generalizing tokens with
  | _ length ih =>
    subst hlength
    cases hfound : nextDefinition scope tokens with
    | error error rest =>
      rw [inTurn_of_error hfound]
      exact ⟨by simp, rest, hfound⟩
    | ok found rest =>
      cases found with
      | none =>
        rw [inTurn_of_none hfound]
        exact ⟨by simp, rest, hfound⟩
      | some definition =>
        obtain ⟨hmore, hlast⟩ := ih _ (length_lt_of_nextDefinition hfound) rest rfl
        have hshift : ∀ n, answerAt (fun _ => scope) tokens (n + 1) = answerAt (fun _ => scope) rest n := by
          intro n
          rw [answerAt_succ_eq, hfound]
          rfl
        rw [inTurn_of_some hfound]
        refine ⟨?_, ?_⟩
        · intro n later hlater
          cases n with
          | zero =>
            cases hlater
            exact ⟨rest, hfound⟩
          | succ n =>
            rw [hshift]
            exact hmore n later hlater
        · simp only [List.length_cons, hshift]
          exact hlast

/-- **All definitions at once** are the answers in front of the first one that is none, or the first error. -/
theorem definitions_eq_answers (scope : CallScope) (tokens : List Token) :
    ∃ defs : List Definition,
      (∀ n definition, defs[n]? = some definition →
        ∃ rest, answerAt (fun _ => scope) tokens n = .ok (some definition) rest) ∧
      ((∃ rest, answerAt (fun _ => scope) tokens defs.length = .ok none rest) ∧ definitions scope tokens = .ok defs ∨
        ∃ error rest, answerAt (fun _ => scope) tokens defs.length = .error error rest ∧
          definitions scope tokens = .error error) := by
  obtain ⟨hdefs, hlast⟩ := inTurn_answers scope tokens
  refine ⟨(inTurn scope tokens).1, hdefs, ?_⟩
  rw [definitions_eq_inTurn]
  cases hended : (inTurn scope tokens).2 with
  | none =>
    rw [hended] at hlast
    exact .inl ⟨hlast, rfl⟩
  | some error =>
    rw [hended] at hlast
    obtain ⟨rest, hlast⟩ := hlast
    exact .inr ⟨error, rest, hlast, rfl⟩

/-- **Reading makes progress, also behind errors.** However often the next definition of a source is asked for, or of
    the tokens up to some place in it, and whatever the internal templates are each time: every call takes a stretch of
    the tokens, the stretches lie one behind the other, and only a call that finds no definition can take nothing. So
    there are no more other answers than tokens. Once there is no definition, there is none later on. Reading all
    definitions at once gives those of the calls up to that point, or the first error. -/
theorem calls_progress {code : String} {file : Nat} (h : tokens <+: (scan code file).tokens)
    (scopes : Nat → CallScope) :
    (∃ taken : Nat → List Token, (∀ n, tokens = (List.range n).flatMap taken ++ leftAt scopes tokens n) ∧
      ∀ n, Takes (scopes n) (answerAt scopes tokens n) (taken n) ∧
        ((answerAt scopes tokens n).isEnd = false → taken n ≠ [])) ∧
    (∀ n, (List.range n).countP (fun k => !(answerAt scopes tokens k).isEnd) ≤ tokens.length) ∧
    (∀ n m, n ≤ m → (answerAt scopes tokens n).isEnd = true → (answerAt scopes tokens m).isEnd = true) ∧
    ∀ scope, ∃ defs : List Definition,
      (∀ n definition, defs[n]? = some definition →
        ∃ rest, answerAt (fun _ => scope) tokens n = .ok (some definition) rest) ∧
      ((∃ rest, answerAt (fun _ => scope) tokens defs.length = .ok none rest) ∧ definitions scope tokens = .ok defs ∨
        ∃ error rest, answerAt (fun _ => scope) tokens defs.length = .error error rest ∧
          definitions scope tokens = .error error) := by
  choose taken htaken using fun n => exists_takes (scopes n) (leftAt scopes tokens n)
  refine ⟨⟨taken, ?_, ?_⟩, ?_, ?_, ?_⟩
  · exact eq_flatMap_append_leftAt fun n => (htaken n).1
  · exact fun n => ⟨(htaken n).2, (htaken n).2.ne_nil⟩
  · intro n
    have hcount := countP_answerAt_le scopes tokens n
    omega
  · exact fun n m hle => isEnd_answerAt_of_le (endsLast_of_isPrefix h) hle
  · exact fun scope => definitions_eq_answers scope tokens

/-- All tokens of a source but its end, and a parenthesis among them that cannot stand there. The first call gives it as
    an error and takes what is in front of it, the next one finds the definition behind it, and then there is none. -/
theorem calls_progress_behind_fault :
    let code := "def a \x7b ) /* c */ DEF b \x7b\x7d"
    let scopes (n : Nat) : CallScope := ⟨0, fun _ => n == 1⟩
    let token (kind : TokenKind Range) (column stop : Nat) : Token := ⟨kind, ⟨⟨1, column⟩, ⟨1, stop⟩⟩, 0⟩
    let tokens := [token (.ident "def") 1 4, token (.ident "a") 5 6, token .lbrace 7 8, token .rparen 9 10,
      token (.comment " c ") 11 18, token (.ident "DEF") 19 22, token (.ident "b") 23 24, token .lbrace 25 26,
      token .rbrace 26 27]
    tokens <+: (scan code 0).tokens ∧
      answerAt scopes tokens 0 = .error (.fault .unexpectedToken (token .rparen 9 10)) (tokens.drop 4) ∧
      answerAt scopes tokens 1 = .ok (some ⟨"b", ⟨0, ⟨1, 19⟩, ⟨1, 22⟩⟩, .body ⟨0, ⟨1, 25⟩, ⟨1, 26⟩⟩ []⟩) [] ∧
      (∀ n, 2 ≤ n → (answerAt scopes tokens n).isEnd = true) ∧
      ∀ n, (List.range n).countP (fun k => !(answerAt scopes tokens k).isEnd) ≤ 9 := by
  intro code scopes token tokens
  have hscan : (scan code 0).tokens = tokens ++ [token .eof 27 27] := by decide +kernel
  have hfirst : answerAt scopes tokens 0 =
      .error (.fault .unexpectedToken (token .rparen 9 10)) (tokens.drop 4) := by decide +kernel
  have hsecond : answerAt scopes tokens 1 =
      .ok (some ⟨"b", ⟨0, ⟨1, 19⟩, ⟨1, 22⟩⟩, .body ⟨0, ⟨1, 25⟩, ⟨1, 26⟩⟩ []⟩) [] := by decide +kernel
  have hthird : (answerAt scopes tokens 2).isEnd = true := by decide +kernel
  have hfront : tokens <+: (scan code 0).tokens := ⟨_, hscan.symm⟩
  obtain ⟨-, hcount, hend, -⟩ := calls_progress hfront scopes
  exact ⟨hfront, hfirst, hsecond, fun n hle => hend 2 n hle hthird, hcount⟩

end Definition

end HtmlTemplate
