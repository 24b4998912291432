import HtmlTemplate.Proofs.Grammar.Tracks

/-!
# The beginning of a source

Tokens are viable if they can be gone on with to a source. The automaton tells which ones are: as long as it
finds no fault, the goals it is left with can be fulfilled one by one (`viable_of_run`), and behind a fault
nothing helps (`not_viable_of_run`). So the token of a fault is the first one that cannot stand where it does
(`Explains.firstMisfit`).

## Contents

* `Viable`, `FirstMisfit` — what can be gone on with, and the token behind which nothing can;
* `Goal.filler` — tokens that fulfil a goal;
* `Bottomed` — the goals in front of the end of a source;
* `viable_of_run`, `not_viable_of_run`, `Explains.firstMisfit` — viability and the automaton.
-/

namespace HtmlTemplate

namespace Grammar

/-- Some tokens are the beginning of a source. -/
def Viable (tokens : List Token) : Prop :=
  ∃ (source : Grammar.Source) (more : List Token), source.tokens = tokens ++ more

/-- The tokens in front of a token are the beginning of a source, but not together with it. -/
def FirstMisfit (tokens : List Token) (token : Token) : Prop :=
  ∃ before after, tokens = before ++ token :: after ∧ Viable before ∧ ¬ Viable (before ++ [token])

variable {goals left above below : List Goal} {goal : Goal} {kind : TokenKind Range} {tokens : List Token}

/-! ## Fulfilling goals -/

/-- Kinds of tokens that fulfil a goal. -/
def Goal.filler : Goal → List (TokenKind Range)
  | source => [.eof]
  | name | selector => [.ident "a"]
  | openBrace => [.lbrace]
  | items => [.rbrace]
  | behindName | behindTag => [.lbrace, .rbrace]
  | equal => [.equal]
  | attrValue | argumentValue => [.quote ""]
  | closeBracket => [.rbracket]
  | behindParen | behindArgument => [.rparen]
  | argument => [.ident "a", .colon, .quote "", .rparen]
  | colon => [.colon]

/-- Tokens that fulfil some goals. -/
def fillers (goals : List Goal) : List Token := (goals.flatMap Goal.filler).map (Location.token default)

theorem run_filler (goal : Goal) (below : List Goal) (more : List Token) :
    run (goal :: below) (goal.filler.map (Location.token default) ++ more) = run below more := by
  cases goal <;> rfl

theorem run_fillers (goals : List Goal) : run goals (fillers goals) = .ok [] := by
  induction goals with
  | nil => rfl
  | cons goal goals ih =>
    unfold fillers at ih ⊢
    rw [List.flatMap_cons, List.map_append, run_filler, ih]

theorem filler_ne_eof (h : goal ≠ .source) : kind ∈ goal.filler → kind ≠ .eof := by
  intro hkind
  cases goal with
  | source => exact absurd rfl h
  | _ =>
    rintro rfl
    simp [Goal.filler] at hkind

/-! ## The goal at the bottom -/

/-- The end of the source is the last of some goals, and only the last. -/
def Bottomed (goals : List Goal) : Prop := ∃ above, goals = above ++ [.source] ∧ .source ∉ above

/-- A token in front of the end keeps the goal at the bottom there. -/
theorem move_take (hkind : kind ≠ .eof) (h : goal.move kind = .take left) :
    if goal = .source then Bottomed left else .source ∉ left := by
  cases goal with
  | source =>
    rw [if_pos rfl]
    cases kind with
    | eof => exact absurd rfl hkind
    | comment text =>
      cases h
      exact ⟨[], rfl, List.not_mem_nil⟩
    | ident text =>
      unfold Goal.move at h
      dsimp only at h
      split at h
      · cases h
        exact ⟨[.name, .openBrace, .items], rfl, by simp⟩
      · cases h
    | _ => cases h
  | _ =>
    rw [if_neg nofun]
    cases kind <;> cases h <;> simp

/-- The end of the source is never left out. -/
theorem move_source_ne_pass : Goal.source.move kind ≠ .pass := by
  intro h
  cases kind with
  | ident text =>
    unfold Goal.move at h
    dsimp only at h
    split at h <;> cases h
  | _ => cases h

theorem Bottomed.step (hkind : kind ≠ .eof) (hgoals : Bottomed goals) (h : step goals kind = .ok left) :
    Bottomed left := by
  obtain ⟨above, rfl, habove⟩ := hgoals
  induction above with
  | nil =>
    cases hmove : Goal.source.move kind with
    | take more =>
      have hbottom := move_take hkind hmove
      rw [if_pos rfl] at hbottom
      rw [List.nil_append, step_take hmove, List.append_nil] at h
      cases h
      exact hbottom
    | pass => exact absurd hmove move_source_ne_pass
    | fault cause =>
      rw [List.nil_append, step_fault hmove] at h
      cases h
  | cons goal above ih =>
    rw [List.mem_cons, not_or] at habove
    obtain ⟨hgoal, habove⟩ := habove
    cases hmove : goal.move kind with
    | take more =>
      have hmore := move_take hkind hmove
      rw [if_neg (Ne.symm hgoal)] at hmore
      rw [List.cons_append, step_take hmove, ← List.append_assoc] at h
      cases h
      exact ⟨more ++ above, rfl, by simp [hmore, habove]⟩
    | pass =>
      rw [List.cons_append, step_pass hmove] at h
      exact ih habove h
    | fault cause =>
      rw [List.cons_append, step_fault hmove] at h
      cases h

theorem Bottomed.run (htokens : ∀ token ∈ tokens, token.kind ≠ .eof) (hgoals : Bottomed goals)
    (h : run goals tokens = .ok left) : Bottomed left := by
  induction tokens generalizing goals with
  | nil =>
    cases h
    exact hgoals
  | cons token tokens ih =>
    obtain ⟨hfirst, hmore⟩ := List.forall_mem_cons.mp htokens
    cases hstep : Grammar.step goals token.kind with
    | ok middle =>
      rw [run_cons_ok hstep] at h
      exact ih hmore (hgoals.step hfirst hstep) h
    | error cause =>
      rw [run_cons_error hstep] at h
      cases h

/-- Behind the end of the source nothing has to come. -/
theorem Bottomed.step_eof (hgoals : Bottomed goals) (h : Grammar.step goals .eof = .ok left) : left = [] := by
  obtain ⟨above, rfl, habove⟩ := hgoals
  induction above with
  | nil =>
    cases h
    rfl
  | cons goal above ih =>
    rw [List.mem_cons, not_or] at habove
    obtain ⟨hgoal, habove⟩ := habove
    cases goal with
    | source => exact absurd rfl hgoal
    | behindName | behindTag => exact ih habove h
    | _ => cases h

/-! ## Viability and the automaton -/

theorem bottomed_source : Bottomed [.source] := ⟨[], rfl, List.not_mem_nil⟩

/-- The end of a source leaves nothing to come. -/
theorem left_eq_nil_of_run_eof {eof : Token} (heof : eof.kind = .eof) (htokens : ∀ token ∈ tokens, token.kind ≠ .eof)
    (h : run [.source] (tokens ++ [eof]) = .ok left) : left = [] := by
  rw [run_append] at h
  cases hrun : run [.source] tokens with
  | error error =>
    rw [hrun] at h
    cases h
  | ok middle =>
    rw [hrun] at h
    change run middle [eof] = .ok left at h
    cases hstep : Grammar.step middle eof.kind with
    | error cause => cases (run_cons_error hstep []).symm.trans h
    | ok behind =>
      cases (run_cons_ok hstep []).symm.trans h
      rw [heof] at hstep
      exact (bottomed_source.run htokens hrun).step_eof hstep

/-- Tokens that leave nothing to come are a source. -/
theorem exists_source_of_run (eof : Location) (htokens : ∀ token ∈ tokens, token.kind ≠ .eof)
    (h : run [.source] (tokens ++ [eof.token .eof]) = .ok []) :
    ∃ source : Grammar.Source, source.tokens = tokens ++ [eof.token .eof] := by
  let scope : CallScope := ⟨0, fun _ => false⟩
  have htracks := Definition.allDefinitions_tracks scope (Nat.le_refl (tokens ++ [eof.token .eof]).length)
  apply (definitions_exact scope tokens eof htokens).1.mp
  unfold definitions
  -- The automaton is left with nothing and found no fault, so the readers cannot have failed either way.
  cases hread : Definition.allDefinitions scope (tokens ++ [eof.token .eof]).length (tokens ++ [eof.token .eof]) with
  | ok defs rest => exact ⟨defs, rfl⟩
  | error error rest =>
    rw [hread] at htracks
    cases error with
    | fault cause token => cases h.symm.trans htracks
    | endOfTokens file =>
      obtain ⟨more, hmore, hrun⟩ := htracks
      cases h.symm.trans hrun
      exact absurd rfl hmore

/-- **Goals that are left can be fulfilled.** -/
theorem viable_of_run (htokens : ∀ token ∈ tokens, token.kind ≠ .eof) (h : run [.source] tokens = .ok left) :
    Viable tokens := by
  obtain ⟨above, rfl, habove⟩ := bottomed_source.run htokens h
  -- The goals are fulfilled from the top down to the end of the source, which is the only `eof`.
  have hfillers : fillers (above ++ [.source]) = fillers above ++ [Location.token default .eof] := by
    simp [fillers, Goal.filler]
  have hrun : run [.source] ((tokens ++ fillers above) ++ [Location.token default .eof]) = .ok [] := by
    rw [List.append_assoc, ← hfillers, run_append, h]
    exact run_fillers _
  obtain ⟨source, hsource⟩ := exists_source_of_run default (by
    intro token htoken
    rcases List.mem_append.mp htoken with hmem | hmem
    · exact htokens token hmem
    · obtain ⟨kind, hkind, rfl⟩ := List.mem_map.mp hmem
      obtain ⟨goal, hgoal, hfiller⟩ := List.mem_flatMap.mp hkind
      apply filler_ne_eof _ hfiller
      rintro rfl
      exact habove hgoal) hrun
  exact ⟨source, fillers above ++ [Location.token default .eof], by rw [hsource, List.append_assoc]⟩

/-- The automaton finds no fault in a source. -/
theorem run_source (source : Grammar.Source) : ∃ left, run [.source] source.tokens = .ok left := by
  let scope : CallScope := ⟨0, fun _ => false⟩
  obtain ⟨parts, eof⟩ := source
  have htracks := Definition.allDefinitions_tracks scope (Nat.le_refl (Grammar.Source.tokens ⟨parts, eof⟩).length)
  rw [Grammar.Source.tokens, List.length_append, List.length_singleton,
    Definition.allDefinitions_complete scope parts eof _ (Nat.lt_succ_self _)] at htracks
  exact htracks.exists_run

/-- **Behind a fault nothing helps.** -/
theorem not_viable_of_run {error : SyntaxError} (h : run [.source] tokens = .error error) : ¬ Viable tokens := by
  rintro ⟨source, more, hsource⟩
  obtain ⟨left, hleft⟩ := run_source source
  rw [hsource, run_append, h] at hleft
  cases hleft

/-- A fault is found at a token behind which some goals are left. -/
theorem run_eq_fault {cause : SyntaxFault} {token : Token} (h : run goals tokens = .error (.fault cause token)) :
    ∃ before after middle, tokens = before ++ token :: after ∧ run goals before = .ok middle ∧
      step middle token.kind = .error cause := by
  induction tokens generalizing goals with
  | nil => cases h
  | cons first tokens ih =>
    cases hstep : step goals first.kind with
    | ok middle =>
      rw [run_cons_ok hstep] at h
      obtain ⟨before, after, middle', rfl, hrun, hfault⟩ := ih h
      exact ⟨first :: before, after, middle', rfl, (run_cons_ok hstep before).trans hrun, hfault⟩
    | error other =>
      rw [run_cons_error hstep] at h
      cases h
      exact ⟨[], tokens, goals, rfl, rfl, hstep⟩

/-- **A fault is found at the first token that cannot stand where it does.** -/
theorem Explains.firstMisfit {cause : SyntaxFault} {token : Token}
    (htokens : ∀ token ∈ tokens.dropLast, token.kind ≠ .eof) (h : Explains [.source] tokens (.fault cause token)) :
    FirstMisfit tokens token := by
  obtain ⟨before, after, middle, rfl, hrun, hfault⟩ := run_eq_fault h
  refine ⟨before, after, rfl, viable_of_run ?_ hrun, ?_⟩
  · intro other hother
    apply htokens
    rw [List.dropLast_append_of_ne_nil (List.cons_ne_nil _ _)]
    exact List.mem_append_left _ hother
  · have herror : run [.source] (before ++ [token]) = .error (.fault cause token) := by
      rw [run_append, hrun]
      exact run_cons_error hfault []
    exact not_viable_of_run herror

end Grammar

end HtmlTemplate
