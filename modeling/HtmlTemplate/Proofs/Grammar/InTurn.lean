import HtmlTemplate.Proofs.Grammar.Composed
import HtmlTemplate.Proofs.Session.FailedCompile

/-!
# Definitions one after the other

Definitions are read one after the other until there is none or one cannot be read. What is read in turn are the
comments and definitions at the beginning of the tokens, and the reading keeps step with the automaton. Where it
runs out of tokens, it is the source being read that has too few of them.

## Contents

* `TokenReader.EndsIn`, `Composed.endsIn` — readers that miss tokens in one source;
* `Definition.nextDefinition_eq_error` — definitions that cannot be read;
* `Definition.inTurn` — definitions one after the other;
* `inTurn_parts`, `exists_parts` — what is found are the definitions at the beginning;
* `inTurn_tracks`, `inTurn_snd_eq_fault` — the error is the one that the automaton finds;
* `definitions_eq_inTurn` — all of them at once.
-/

namespace HtmlTemplate

open Grammar

/-! ## Where tokens are missed -/

namespace TokenReader

variable {α : Type} {file : Nat}

/-- Where the reader runs out of tokens, it says so of this source. -/
def EndsIn (file : Nat) (reader : TokenReader α) : Prop :=
  ∀ tokens other rest, reader tokens = .error (.endOfTokens other) rest → other = file

theorem Composed.endsIn {last : Option Token} {reader : TokenReader α} (h : Composed file last reader) :
    EndsIn file reader := by
  induction h with
  | pure | fault => exact nofun
  | endOfTokens =>
    rintro tokens other rest ⟨⟩
    rfl
  | next _ ih =>
    intro tokens other rest h
    cases tokens with
    | nil =>
      cases h
      rfl
    | cons token tokens => exact ih token tokens other rest h
  | peekKind _ ih => exact fun tokens other rest h => ih _ tokens other rest h
  | skipComments _ ih =>
    intro tokens other rest h
    rw [bind_apply] at h
    split at h
    · exact ih _ other rest h
    · rename_i hskip
      exact absurd hskip skipComments_ne_error
  | bind _ _ ihReader ihBehind =>
    intro tokens other rest h
    rw [bind_apply] at h
    split at h
    · exact ihBehind _ _ other rest h
    · rename_i hreader
      cases h
      exact ihReader tokens other rest hreader

end TokenReader

namespace Definition

open TokenReader

variable {scope : CallScope} {file bound : Nat}

/-- The next definition cannot be read if what is behind the comments is no keyword, or if something is wrong behind
    the keyword. -/
theorem nextDefinition_eq_error {tokens rest : List Token} {error : SyntaxError}
    (h : nextDefinition scope tokens = .error error rest) :
    ∃ (comments : List Comment) (token : Token) (more : List Token), tokens = commentTokens comments ++ token :: more ∧
      (error = .fault .expectedDefinition token ∧ rest = more ∨
        (∃ name, token.kind = .ident name ∧ isKeyword name = true) ∧
          afterKeyword scope token more = .error error rest) := by
  induction tokens with
  | nil => cases h
  | cons token tokens ih =>
    obtain ⟨kind, range, file⟩ := token
    cases kind with
    | comment text =>
      obtain ⟨comments, token, more, rfl, hmore⟩ := ih h
      exact ⟨⟨⟨file, range⟩, text⟩ :: comments, token, more, rfl, hmore⟩
    | eof => cases h
    | ident name =>
      change nextDefinition scope ((⟨file, range⟩ : Location).token (.ident name) :: tokens) = _ at h
      rw [nextDefinition_ident] at h
      by_cases hname : isKeyword name = true
      · rw [if_pos hname] at h
        exact ⟨[], _, tokens, rfl, .inr ⟨⟨name, rfl, hname⟩, map_eq_error.mp h⟩⟩
      · rw [if_neg hname] at h
        cases h
        exact ⟨[], _, rest, rfl, .inl ⟨rfl, rfl⟩⟩
    | _ =>
      cases h
      exact ⟨[], _, rest, rfl, .inl ⟨rfl, rfl⟩⟩

theorem nextDefinition_endsIn : EndsIn scope.file (nextDefinition scope) := by
  intro tokens other rest h
  obtain ⟨comments, token, more, rfl, ⟨hfault, -⟩ | ⟨-, hbehind⟩⟩ := nextDefinition_eq_error h
  · cases hfault
  · obtain ⟨reader, hreader, happly⟩ := @afterKeyword_composed scope none token more
    rw [happly] at hbehind
    exact hreader.endsIn more other rest hbehind

/-! ## Definitions one after the other -/

/-- The definitions that are read one after the other, all against the same internal templates, until there is no
    next one or it cannot be read; and in that case why. -/
def inTurn (scope : CallScope) (tokens : List Token) : List Definition × Option SyntaxError :=
  match _h : nextDefinition scope tokens with
  | .ok none _ => ([], none)
  | .ok (some definition) rest =>
    let more := inTurn scope rest
    (definition :: more.1, more.2)
  | .error error _ => ([], some error)
termination_by tokens.length
decreasing_by exact length_lt_of_nextDefinition _h

variable {tokens rest : List Token}

theorem inTurn_of_some {definition : Definition} (h : nextDefinition scope tokens = .ok (some definition) rest) :
    inTurn scope tokens = (definition :: (inTurn scope rest).1, (inTurn scope rest).2) := by
  rw [inTurn]
  split <;> simp_all

theorem inTurn_of_none (h : nextDefinition scope tokens = .ok none rest) : inTurn scope tokens = ([], none) := by
  rw [inTurn]
  split <;> simp_all

theorem inTurn_of_error {error : SyntaxError} (h : nextDefinition scope tokens = .error error rest) :
    inTurn scope tokens = ([], some error) := by
  rw [inTurn]
  split <;> simp_all

/-- Comments and definitions are read, and then what is behind them. -/
theorem inTurn_parts (parts : List Part) (rest : List Token) :
    inTurn scope (parts.flatMap Part.tokens ++ rest) =
      ((parts.filterMap Part.def?).map (Def.definition scope) ++ (inTurn scope rest).1, (inTurn scope rest).2) := by
  induction parts with
  | nil => rfl
  | cons part parts ih =>
    rw [List.flatMap_cons, List.append_assoc]
    cases part with
    | comment c =>
      have hskip : nextDefinition scope (Part.tokens (.comment c) ++ (parts.flatMap Part.tokens ++ rest)) =
          nextDefinition scope (parts.flatMap Part.tokens ++ rest) := rfl
      rw [List.filterMap_cons_none rfl, ← ih, inTurn, inTurn, hskip]
    | definition d =>
      have hfound : nextDefinition scope (d.tokens ++ (parts.flatMap Part.tokens ++ rest)) =
          .ok (some (d.definition scope)) (parts.flatMap Part.tokens ++ rest) :=
        nextDefinition_eq_some.mpr ⟨[], d, rfl, rfl⟩
      rw [Part.tokens, inTurn_of_some hfound, ih]
      rfl

/-- What is found are the comments and definitions at the beginning. -/
theorem exists_parts (scope : CallScope) (tokens : List Token) :
    ∃ (parts : List Part) (rest : List Token), tokens = parts.flatMap Part.tokens ++ rest ∧
      ∀ definition behind, nextDefinition scope rest ≠ .ok (some definition) behind := by
  induction hlength : tokens.length using Nat.strong_induction_on generalizing tokens with
  | _ length ih =>
    subst hlength
    by_cases hnext : ∃ definition behind, nextDefinition scope tokens = .ok (some definition) behind
    · obtain ⟨definition, behind, hfound⟩ := hnext
      have hlt := length_lt_of_nextDefinition hfound
      obtain ⟨comments, d, rfl, -⟩ := nextDefinition_eq_some.mp hfound
      obtain ⟨parts, rest, rfl, hrest⟩ := ih _ hlt behind rfl
      refine ⟨commentParts comments ++ .definition d :: parts, rest, ?_, hrest⟩
      simp only [List.flatMap_append, tokens_commentParts, List.flatMap_cons, Part.tokens, List.append_assoc]
    · push Not at hnext
      exact ⟨[], tokens, rfl, hnext⟩

theorem inTurn_fst_eq_nil (h : ∀ definition behind, nextDefinition scope tokens ≠ .ok (some definition) behind) :
    (inTurn scope tokens).1 = [] := by
  cases hfound : nextDefinition scope tokens with
  | ok found rest =>
    cases found with
    | none => rw [inTurn_of_none hfound]
    | some definition => exact absurd hfound (h definition rest)
  | error error rest => rw [inTurn_of_error hfound]

/-- Definitions one after the other keep step with the automaton. -/
theorem inTurn_tracks (scope : CallScope) (tokens : List Token) :
    Tracks [.source] [] tokens (Engine.ending (inTurn scope tokens).2) := by
  induction hlength : tokens.length using Nat.strong_induction_on generalizing tokens with
  | _ length ih =>
    subst hlength
    have hnext := nextDefinition_tracks scope tokens
    cases hfound : nextDefinition scope tokens with
    | ok found rest =>
      rw [hfound] at hnext
      cases found with
      | none =>
        obtain ⟨left, hrun⟩ := hnext.exists_run
        rw [inTurn_of_none hfound]
        exact .of_run () hrun
      | some definition =>
        -- Behind a definition the automaton expects what it expects at the beginning.
        rw [inTurn_of_some hfound]
        exact hnext.trans (ih _ (length_lt_of_nextDefinition hfound) rest rfl)
    | error error rest =>
      rw [hfound] at hnext
      rw [inTurn_of_error hfound]
      exact hnext

/-- The fault of a token is the one that the automaton finds. -/
theorem inTurn_snd_eq_fault {cause : SyntaxFault} {token : Token} :
    (inTurn scope tokens).2 = some (.fault cause token) ↔ run [.source] tokens = .error (.fault cause token) := by
  have htracks := inTurn_tracks scope tokens
  constructor
  · intro h
    rw [h] at htracks
    exact htracks
  · intro hrun
    cases hended : (inTurn scope tokens).2 with
    | none =>
      rw [hended] at htracks
      obtain ⟨left, hleft⟩ := htracks.exists_run
      cases hrun.symm.trans hleft
    | some error =>
      rw [hended] at htracks
      cases error with
      | fault cause' token' =>
        cases hrun.symm.trans htracks
        rfl
      | endOfTokens file =>
        obtain ⟨left, -, hleft⟩ := htracks
        cases hrun.symm.trans hleft

/-- A token is to blame that stands among the tokens. -/
theorem mem_of_inTurn_fault {cause : SyntaxFault} {token : Token}
    (h : (inTurn scope tokens).2 = some (.fault cause token)) : token ∈ tokens := by
  obtain ⟨before, after, _, rfl, -, -⟩ := run_eq_fault (inTurn_snd_eq_fault.mp h)
  exact List.mem_append_right _ List.mem_cons_self

theorem allDefinitions_eq_inTurn (scope : CallScope) (hbound : tokens.length ≤ bound) :
    (allDefinitions scope bound tokens).toExcept =
      match (inTurn scope tokens).2 with
      | none => .ok (inTurn scope tokens).1
      | some error => .error error := by
  induction bound generalizing tokens with
  | zero =>
    rw [List.eq_nil_of_length_eq_zero (Nat.le_zero.mp hbound), inTurn_of_none rfl]
    rfl
  | succ bound ih =>
    rw [allDefinitions, bind_apply]
    cases hfound : nextDefinition scope tokens with
    | ok found rest =>
      cases found with
      | none =>
        rw [inTurn_of_none hfound]
        rfl
      | some definition =>
        -- Fewer tokens are left, so the bound is large enough for these as well.
        have hlength := length_lt_of_nextDefinition hfound
        have hmore := @ih rest (by omega)
        rw [inTurn_of_some hfound]
        dsimp only
        rw [bind_apply]
        cases hread : allDefinitions scope bound rest <;> cases hended : (inTurn scope rest).2 <;>
          rw [hread, hended] at hmore <;> cases hmore <;> rfl
    | error error rest =>
      rw [inTurn_of_error hfound]
      rfl

/-- All definitions at once are the ones that are found in turn, if nothing is wrong. -/
theorem definitions_eq_inTurn (scope : CallScope) (tokens : List Token) :
    definitions scope tokens =
      match (inTurn scope tokens).2 with
      | none => .ok (inTurn scope tokens).1
      | some error => .error error :=
  allDefinitions_eq_inTurn scope (Nat.le_refl _)

/-- What is missed is missed in the source that is read. -/
theorem inTurn_endsIn {file : Nat} (h : (inTurn scope tokens).2 = some (.endOfTokens file)) : file = scope.file := by
  obtain ⟨parts, rest, rfl, hrest⟩ := exists_parts scope tokens
  rw [inTurn_parts] at h
  cases hfound : nextDefinition scope rest with
  | ok found behind =>
    cases found with
    | none =>
      rw [inTurn_of_none hfound] at h
      cases h
    | some definition => exact absurd hfound (hrest definition behind)
  | error error behind =>
    rw [inTurn_of_error hfound] at h
    cases h
    exact nextDefinition_endsIn rest file behind hfound

end Definition

end HtmlTemplate
