import HtmlTemplate.Proofs.Grammar.Goals

/-!
# The readers keep step with the automaton

However a reader ends, it comes to the same as the automaton: with a phrase it leaves the goals below, at a
token that does not fit both have the same fault, and at the end of the tokens there are goals left. The proof
for the readers that call each other is an induction on their bound, as it is for phrases.

## Contents

* `Grammar.Explains`, `Grammar.Tracks` — what is said of a reader;
* `Tracks.bind`, `Tracks.exchange` — readers one after the other, and goals that come to the same;
* `Definition.tracks` — blocks and calls;
* `Definition.nextDefinition_tracks`, `allDefinitions_tracks` — definitions.
-/

namespace HtmlTemplate

namespace Grammar

/-! ## Readers that keep step -/

section Tracks

variable {α β : Type} {goals middle left below : List Goal} {goal other : Goal} {token : Token}
  {tokens rest : List Token}

/-- The automaton comes to the same end as a reader that fails: it finds the same fault, or it is left with
    goals at the end of the tokens. -/
def Explains (goals : List Goal) (tokens : List Token) : SyntaxError → Prop
  | .fault cause token => run goals tokens = .error (.fault cause token)
  | .endOfTokens _ => ∃ more, more ≠ [] ∧ run goals tokens = .ok more

/-- The answer of a reader to some tokens is what the automaton makes of the goals: it gets from `goals` to
    `left` with the tokens that were read, or it explains the error. A reader that has looked for one more token
    and found none may leave more goals. -/
def Tracks (goals left : List Goal) (tokens : List Token) : Reading α → Prop
  | .ok _ rest => rest.length ≤ tokens.length ∧
      ∃ more, (rest ≠ [] → more = []) ∧ run goals tokens = run (more ++ left) rest
  | .error error _ => Explains goals tokens error

/-- The next token makes the same of some goals as of others. -/
def Exchangeable (goals others : List Goal) (tokens : List Token) : Prop :=
  ∀ kind, tokens.head?.map Token.kind = some kind → step goals kind = step others kind

theorem Explains.of_run_eq {error : SyntaxError} (hrun : run goals tokens = run middle rest)
    (h : Explains middle rest error) : Explains goals tokens error := by
  cases error with
  | fault cause token => exact hrun.trans h
  | endOfTokens file =>
    obtain ⟨more, hmore, hrest⟩ := h
    exact ⟨more, hmore, hrun.trans hrest⟩

/-- At the end of the tokens there may be more goals than an error tells of. -/
theorem Explains.of_run_eq_append {more : List Goal} {error : SyntaxError}
    (hrun : run goals tokens = .ok (more ++ middle)) (h : Explains middle [] error) :
    Explains goals tokens error := by
  cases error with
  | fault cause token => cases h
  | endOfTokens file =>
    obtain ⟨more', hmore', hrest⟩ := h
    cases hrest
    exact ⟨more ++ middle, List.append_ne_nil_of_right_ne_nil _ hmore', hrun⟩

namespace Tracks

theorem done (value : α) (goals : List Goal) (tokens : List Token) : Tracks goals goals tokens (.ok value tokens) :=
  ⟨Nat.le_refl _, [], fun _ => rfl, rfl⟩

/-- A reader that needs no more tokens is done at the end of them, whatever goals there are. -/
theorem doneAtEnd (value : α) (goals left : List Goal) : Tracks (goals ++ left) left [] (.ok value []) :=
  ⟨Nat.le_refl _, goals, fun hne => absurd rfl hne, rfl⟩

theorem endOfTokens (goal : Goal) (below left : List Goal) (file : Nat) :
    Tracks (goal :: below) left [] (.error (.endOfTokens file) rest : Reading α) :=
  ⟨goal :: below, List.cons_ne_nil _ _, run_nil _⟩

/-- A token that does not fit is blamed. -/
theorem fault {cause : SyntaxFault} (hstep : step goals token.kind = .error cause) :
    Tracks goals left (token :: tokens) (.error (.fault cause token) rest : Reading α) :=
  run_cons_error hstep tokens

/-- What was read already does not matter. -/
theorem of_run_eq {reading : Reading α} (hlength : rest.length ≤ tokens.length)
    (hrun : run goals tokens = run middle rest) (h : Tracks middle left rest reading) :
    Tracks goals left tokens reading := by
  cases reading with
  | ok value behind =>
    obtain ⟨hbehind, more, hmore, hrest⟩ := h
    exact ⟨Nat.le_trans hbehind hlength, more, hmore, hrun.trans hrest⟩
  | error error behind => exact Explains.of_run_eq hrun h

/-- At the end of the tokens there may be more goals than a reader knows of. -/
theorem of_run_eq_append {reading : Reading α} {more : List Goal} (hrun : run goals tokens = .ok (more ++ middle))
    (h : Tracks middle left [] reading) : Tracks goals left tokens reading := by
  cases reading with
  | ok value behind =>
    -- There was nothing to read, so the goals that the reader leaves are those it has found, and some more.
    obtain ⟨hbehind, more', -, hrest⟩ := h
    obtain rfl := List.eq_nil_of_length_eq_zero (Nat.le_zero.mp hbehind)
    rw [run_nil, run_nil] at hrest
    refine ⟨Nat.zero_le _, more ++ more', fun hne => absurd rfl hne, ?_⟩
    rw [hrun, Except.ok.inj hrest, List.append_assoc, run_nil]
  | error error behind => exact Explains.of_run_eq_append hrun h

/-- A token that fits is read. -/
theorem cons {reading : Reading α} (hstep : step goals token.kind = .ok middle)
    (h : Tracks middle left tokens reading) : Tracks goals left (token :: tokens) reading :=
  of_run_eq (Nat.le_succ _) (run_cons_ok hstep tokens) h

theorem exchange {reading : Reading α} (hgoals : Exchangeable (goal :: below) (other :: below) tokens)
    (h : Tracks (other :: below) below tokens reading) : Tracks (goal :: below) below tokens reading := by
  cases tokens with
  | cons token tokens =>
    apply of_run_eq (Nat.le_refl _) _ h
    rw [run, run, hgoals token.kind rfl]
  | nil =>
    cases reading with
    | ok value rest =>
      obtain ⟨hlength, -⟩ := h
      obtain rfl := List.eq_nil_of_length_eq_zero (Nat.le_zero.mp hlength)
      exact doneAtEnd value [goal] below
    | error error rest =>
      cases error with
      | fault cause token => cases h
      | endOfTokens file => exact endOfTokens goal below below file

/-- What follows what was read. -/
theorem trans {value : α} {reading : Reading β} (h : Tracks goals middle tokens (.ok value rest))
    (hrest : Tracks middle left rest reading) : Tracks goals left tokens reading := by
  obtain ⟨hlength, more, hmore, hrun⟩ := h
  cases rest with
  | nil => exact of_run_eq_append (hrun.trans (run_nil _)) hrest
  | cons token rest =>
    rw [hmore (List.cons_ne_nil _ _)] at hrun
    exact of_run_eq hlength hrun hrest

/-- The automaton comes to the end of the tokens, and so does the reader. -/
theorem of_run (value : α) (hrun : run goals tokens = .ok left) : Tracks goals [] tokens (.ok value []) := by
  refine ⟨Nat.zero_le _, left, fun hne => absurd rfl hne, ?_⟩
  rw [hrun, run_nil, List.append_nil]

/-- Behind the last goal nothing goes wrong. -/
theorem exists_run {value : α} (h : Tracks goals [] tokens (.ok value rest)) : ∃ left, run goals tokens = .ok left := by
  obtain ⟨-, more, hmore, hrun⟩ := h
  rw [List.append_nil] at hrun
  cases rest with
  | nil => exact ⟨more, hrun.trans (run_nil more)⟩
  | cons token rest =>
    rw [hmore (List.cons_ne_nil _ _), run_no_goals] at hrun
    exact ⟨[], hrun⟩

/-- Readers one after the other keep step if each of them does. -/
theorem bind {reader : TokenReader α} {next : α → TokenReader β}
    (h : Tracks goals middle tokens (reader tokens))
    (hnext : ∀ value rest, reader tokens = .ok value rest → rest.length ≤ tokens.length →
      Tracks middle left rest (next value rest)) :
    Tracks goals left tokens ((reader >>= next) tokens) := by
  rw [TokenReader.bind_apply]
  cases hread : reader tokens with
  | ok value rest =>
    rw [hread] at h
    exact h.trans (hnext value rest hread h.1)
  | error error rest =>
    rw [hread] at h
    exact h

end Tracks

end Tracks

end Grammar

namespace TokenReader

open Grammar

variable {β : Type} {file : Nat} {goals left below : List Goal} {goal : Goal} {tokens : List Token}

/-- A reader that takes a token keeps step if it does so behind any token. -/
theorem next_tracks {next' : Token → TokenReader β}
    (h : ∀ token rest, tokens = token :: rest → Tracks (goal :: below) left (token :: rest) (next' token rest)) :
    Tracks (goal :: below) left tokens ((next file >>= next') tokens) := by
  cases tokens with
  | nil => exact .endOfTokens goal below left file
  | cons token rest => exact h token rest rfl

theorem ident_tracks : Tracks (.name :: below) below tokens (ident file tokens) := by
  apply next_tracks
  rintro ⟨kind, range, file'⟩ rest -
  cases kind with
  | ident text => exact .cons rfl (.done text below rest)
  | _ => exact .fault rfl

theorem expect_tracks {kind : TokenKind Range} {cause : SyntaxFault} (hgoal : goal.Expects kind cause) :
    Tracks (goal :: below) below tokens (expect file kind cause tokens) := by
  apply next_tracks
  intro token rest _
  have hmove := hgoal token.kind
  by_cases h : token.kind = kind
  · rw [if_pos h] at hmove ⊢
    exact .cons (step_take hmove below) (.done token below rest)
  · rw [if_neg h] at hmove ⊢
    exact .fault (step_fault hmove below)

/-- Goals that comments do not change. -/
theorem skipComments_tracks (hgoals : ∀ text, step goals (.comment text) = .ok goals) :
    Tracks goals goals tokens (skipComments tokens) := by
  induction tokens with
  | nil => exact .done () goals []
  | cons token tokens ih =>
    obtain ⟨kind, range, file⟩ := token
    cases kind with
    | comment text => exact .cons (hgoals text) ih
    | _ => exact .done () goals _

end TokenReader

/-! ## All readers keep step -/

namespace Definition

open Grammar TokenReader

variable {scope : CallScope} {file bound : Nat} {below : List Goal} {tokens rest : List Token}

theorem selectorValue_tracks : Tracks (.selector :: below) below tokens (selectorValue file tokens) := by
  apply next_tracks
  rintro ⟨kind, range, file'⟩ rest -
  cases kind with
  | ident | reference => exact .cons rfl (.done _ below rest)
  | _ => exact .fault rfl

theorem attrValue_tracks : Tracks (.attrValue :: below) below tokens (attrValue file tokens) := by
  apply next_tracks
  rintro ⟨kind, range, file'⟩ rest -
  cases kind with
  | quote | reference => exact .cons rfl (.done _ below rest)
  | _ => exact .fault rfl

theorem attr_tracks :
    Tracks (.name :: .equal :: .attrValue :: .closeBracket :: below) below tokens (attr file tokens) := by
  apply ident_tracks.bind
  intro name rest _ _
  apply (expect_tracks Goal.equal_expects).bind
  intro equal rest _ _
  apply attrValue_tracks.bind
  intro value rest _ _
  apply (expect_tracks Goal.closeBracket_expects).bind
  intro rbracket rest _ _
  exact .done _ below rest

theorem modifiers_tracks (hbound : tokens.length ≤ bound) :
    Tracks (.behindTag :: below) (.behindTag :: below) tokens (modifiers file bound tokens) := by
  induction bound generalizing tokens with
  | zero => exact .done [] _ tokens
  | succ bound ih =>
    rw [modifiers, peekKind_bind]
    cases tokens with
    | nil => exact .done [] _ []
    | cons token tokens =>
      rw [List.length_cons] at hbound
      obtain ⟨kind, range, file'⟩ := token
      -- Behind a modifier the same goal is at the top again.
      have hmore : ∀ (modifier : Modifier) (rest : List Token), rest.length ≤ tokens.length →
          Tracks (.behindTag :: below) (.behindTag :: below) rest
            ((modifiers file bound >>= fun more => pure (modifier :: more)) rest) := by
        intro modifier rest hrest
        apply (ih (by omega)).bind
        intro more rest _ _
        exact .done _ _ rest
      cases kind with
      | hash | dot =>
        apply Tracks.cons rfl
        apply selectorValue_tracks.bind
        exact fun value rest _ hrest => hmore _ rest hrest
      | lbracket =>
        apply Tracks.cons rfl
        apply attr_tracks.bind
        exact fun value rest _ hrest => hmore _ rest hrest
      | _ => exact .done [] _ _

/-- All modifiers are read. -/
theorem noModifier_of_modifiers {found : List Modifier} (hbound : tokens.length ≤ bound)
    (h : modifiers file bound tokens = .ok found rest) : NoModifier rest := by
  induction bound generalizing tokens found with
  | zero =>
    obtain ⟨-, rfl⟩ := pure_eq_ok.mp h
    rw [List.eq_nil_of_length_eq_zero (Nat.le_zero.mp hbound)]
    exact nofun
  | succ bound ih =>
    rw [modifiers, peekKind_bind] at h
    cases tokens with
    | nil =>
      obtain ⟨-, rfl⟩ := pure_eq_ok.mp h
      exact nofun
    | cons token tokens =>
      rw [List.length_cons] at hbound
      obtain ⟨kind, range, file'⟩ := token
      cases kind with
      | hash | dot =>
        rw [List.head?_cons, Option.map_some] at h
        simp only [next_bind_cons, bind_eq_ok, selectorValue_eq_ok, pure_eq_ok] at h
        obtain ⟨_, _, ⟨value, rfl, -⟩, _, _, hmore, -, rfl⟩ := h
        exact ih (by rw [List.length_cons] at hbound; omega) hmore
      | lbracket =>
        rw [List.head?_cons, Option.map_some] at h
        simp only [next_bind_cons, bind_eq_ok, attr_eq_ok, pure_eq_ok] at h
        obtain ⟨_, _, ⟨_, _, _, _, _, rfl, -⟩, _, _, hmore, -, rfl⟩ := h
        exact ih (by simp only [List.length_cons] at hbound; omega) hmore
      | _ =>
        obtain ⟨-, rfl⟩ := pure_eq_ok.mp h
        intro kind hkind
        cases hkind
        rfl

/-- A reader of a block behind its opening brace keeps step with short lists of tokens. -/
def ItemsTrack (bound : Nat) (reader : TokenReader (List Node)) : Prop :=
  ∀ (below : List Goal) (tokens : List Token), tokens.length ≤ bound →
    Tracks (.items :: below) below tokens (reader tokens)

/-- A reader of arguments keeps step with short lists of tokens. -/
def ArgumentsTrack (bound : Nat) (reader : TokenReader (List (String × Node))) : Prop :=
  ∀ (below : List Goal) (tokens : List Token), tokens.length ≤ bound →
    Tracks (.argument :: below) below tokens (reader tokens)

theorem tag_tracks {items : TokenReader (List Node)} (hitems : ItemsTrack bound items)
    (hbound : tokens.length ≤ bound) (token : Token) (name : String) :
    Tracks (.behindTag :: below) below tokens (tag file bound items token name tokens) := by
  apply (modifiers_tracks hbound).bind
  intro found rest hfound hrest
  have hends := noModifier_of_modifiers hbound hfound
  rw [peekKind_bind]
  cases rest with
  | nil => exact .doneAtEnd _ [.behindTag] below
  | cons second rest =>
    rw [List.length_cons] at hrest
    obtain ⟨kind, range, file'⟩ := second
    have hkind := hends kind rfl
    cases kind with
    | lbrace =>
      apply Tracks.cons rfl
      apply (hitems below rest (by omega)).bind
      intro children rest _ _
      exact .done _ below rest
    | hash | dot | lbracket => cases hkind
    | _ =>
      -- The tag has no block, and the goals below it decide.
      exact .of_run_eq (Nat.le_refl _) rfl (.done (Node.tag token.location name found none) below _)

theorem argumentName_tracks (hcomment : NoComment tokens) :
    Tracks (.argument :: below) (.argumentValue :: .behindArgument :: below) tokens (argumentName file tokens) := by
  apply next_tracks
  rintro ⟨kind, range, file'⟩ rest rfl
  cases kind with
  | comment text => exact absurd rfl (hcomment text)
  | ident name =>
    apply Tracks.cons rfl
    apply next_tracks
    rintro ⟨kind, range, file'⟩ rest -
    cases kind with
    | colon => exact .cons rfl (.done name _ rest)
    | _ => exact .fault rfl
  | _ => exact .fault rfl

theorem argumentValue_tracks {items : TokenReader (List Node)} (hitems : ItemsTrack bound items)
    (hbound : tokens.length ≤ bound) :
    Tracks (.argumentValue :: below) below tokens (argumentValue file items tokens) := by
  apply next_tracks
  rintro ⟨kind, range, file'⟩ rest rfl
  rw [List.length_cons] at hbound
  cases kind with
  | reference ref =>
    obtain ⟨path, escape⟩ := ref
    cases escape with
    | false | true => exact .cons rfl (.done _ below rest)
  | quote | literal => exact .cons rfl (.done _ below rest)
  | lbrace =>
    apply Tracks.cons rfl
    apply (hitems below rest (by omega)).bind
    intro children rest _ _
    exact .done _ below rest
  | _ => exact .fault rfl

theorem call_tracks {arguments : TokenReader (List (String × Node))} (harguments : ArgumentsTrack bound arguments)
    (hbound : tokens.length ≤ bound) (token : Token) (name : String) (lparen : Location) :
    Tracks (.behindName :: below) below (lparen.token .lparen :: tokens)
      (call scope arguments token name (lparen.token .lparen :: tokens)) := by
  rw [call, next_bind_cons]
  apply Tracks.cons rfl
  apply (skipComments_tracks fun _ => rfl).bind
  intro _ rest hskip hrest
  obtain ⟨-, -, hcomment⟩ := skipComments_eq_ok.mp hskip
  have hlength : rest.length ≤ bound := Nat.le_trans hrest hbound
  -- Unless a parenthesis comes, an argument has to, and then it makes no difference which goal is at the top.
  have hmore : Exchangeable (.behindParen :: below) (.argument :: below) rest →
      Tracks (.behindParen :: below) below rest
        ((arguments >>= fun args => pure (Node.call token.location (scope.binding name) name args)) rest) := by
    intro hgoals
    apply Tracks.exchange hgoals
    apply (harguments below rest hlength).bind
    intro args rest _ _
    exact .done _ below rest
  rw [peekKind_bind]
  cases rest with
  | nil =>
    apply hmore
    intro kind hkind
    cases hkind
  | cons second rest =>
    obtain ⟨kind, range, file⟩ := second
    cases kind with
    | rparen => exact .cons rfl (.done _ below rest)
    | comment text => exact absurd rfl (hcomment text)
    | _ =>
      apply hmore
      intro kind hkind
      cases hkind
      rfl

theorem items_succ_tracks (hitems : ItemsTrack bound (items scope bound))
    (harguments : ArgumentsTrack bound (arguments scope bound [])) :
    ItemsTrack (bound + 1) (items scope (bound + 1)) := by
  intro below tokens hbound
  apply next_tracks
  rintro ⟨kind, range, file⟩ tokens rfl
  rw [List.length_cons] at hbound
  have htokens : tokens.length ≤ bound := by omega
  have hmore : ∀ (node : Node) (rest : List Token), rest.length ≤ tokens.length →
      Tracks (.items :: below) below rest ((items scope bound >>= fun more => pure (node :: more)) rest) := by
    intro node rest hrest
    apply (hitems below rest (by omega)).bind
    intro more rest _ _
    exact .done _ below rest
  cases kind with
  | rbrace => exact .cons rfl (.done [] below tokens)
  | comment text => exact .cons rfl (hitems below tokens htokens)
  | literal | reference => exact .cons rfl (hmore _ tokens (Nat.le_refl _))
  | ident name =>
    apply Tracks.cons rfl
    have htag : Exchangeable (.behindName :: .items :: below) (.behindTag :: .items :: below) tokens →
        Tracks (.behindName :: .items :: below) (.items :: below) tokens
          (tag scope.file bound (items scope bound) ⟨.ident name, range, file⟩ name tokens) := by
      intro hgoals
      exact .exchange hgoals (tag_tracks hitems htokens _ name)
    cases tokens with
    | nil =>
      apply (htag ?_).bind
      · exact fun node rest _ hrest => hmore node rest hrest
      · intro kind hkind
        cases hkind
    | cons second tokens =>
      rw [List.length_cons] at htokens
      obtain ⟨kind, range', file'⟩ := second
      cases kind with
      | lparen =>
        have hbehind : tokens.length ≤ bound := by omega
        apply (call_tracks harguments hbehind _ name ⟨file', range'⟩).bind
        exact fun node rest _ hrest => hmore node rest hrest
      | _ =>
        apply (htag ?_).bind
        · exact fun node rest _ hrest => hmore node rest hrest
        · intro kind hkind
          cases hkind
          rfl
  | _ => exact .fault rfl

theorem arguments_succ_tracks (hitems : ItemsTrack bound (items scope bound))
    (harguments : ∀ args, ArgumentsTrack bound (arguments scope bound args)) (args : List (String × Node)) :
    ArgumentsTrack (bound + 1) (arguments scope (bound + 1) args) := by
  intro below tokens hbound
  rw [arguments]
  apply (skipComments_tracks fun _ => rfl).bind
  intro _ rest hskip hrest
  obtain ⟨-, -, hcomment⟩ := skipComments_eq_ok.mp hskip
  apply (argumentName_tracks hcomment).bind
  intro name rest' hname _
  obtain ⟨place, colon, rfl⟩ := argumentName_eq_ok.mp hname
  -- The name and the colon are gone, so that a smaller bound is enough for the value.
  rw [List.length_cons, List.length_cons] at hrest
  apply (argumentValue_tracks hitems (by omega)).bind
  intro value rest _ hvalue
  apply (skipComments_tracks fun _ => rfl).bind
  intro _ tokens hskip' htokens
  obtain ⟨-, -, hcomment'⟩ := skipComments_eq_ok.mp hskip'
  apply next_tracks
  rintro ⟨kind, range, file⟩ tokens rfl
  rw [List.length_cons] at htokens
  cases kind with
  | comma => exact .cons rfl (harguments _ below tokens (by omega))
  | rparen => exact .cons rfl (.done _ below tokens)
  | comment text => exact absurd rfl (hcomment' text)
  | _ => exact .fault rfl

/-- **The readers that call each other keep step.** -/
theorem tracks (scope : CallScope) (bound : Nat) :
    ItemsTrack bound (items scope bound) ∧ ∀ args, ArgumentsTrack bound (arguments scope bound args) := by
  induction bound with
  | zero =>
    refine ⟨?_, ?_⟩
    · intro below tokens hbound
      rw [List.eq_nil_of_length_eq_zero (Nat.le_zero.mp hbound)]
      exact .endOfTokens .items below below scope.file
    · intro args below tokens hbound
      rw [List.eq_nil_of_length_eq_zero (Nat.le_zero.mp hbound)]
      exact .endOfTokens .argument below below scope.file
  | succ bound ih =>
    obtain ⟨hitems, harguments⟩ := ih
    exact ⟨items_succ_tracks hitems (harguments []), arguments_succ_tracks hitems harguments⟩

/-! ## Definitions keep step -/

theorem afterKeyword_tracks (keyword : Token) :
    Tracks (.name :: .openBrace :: .items :: below) below tokens (afterKeyword scope keyword tokens) := by
  apply ident_tracks.bind
  intro name rest _ hrest
  apply (expect_tracks Goal.openBrace_expects).bind
  intro brace rest' _ hrest'
  apply ((tracks scope tokens.length).1 below rest' (Nat.le_trans hrest' hrest)).bind
  intro children rest'' _ _
  exact .done _ below rest''

/-- The goals behind a definition, or behind the end of the source if there is none. -/
def goalsBehind (found : Reading (Option Definition)) : List Goal :=
  match found with
  | .ok none _ => []
  | _ => [.source]

theorem nextDefinition_tracks (scope : CallScope) (tokens : List Token) :
    Tracks [.source] (goalsBehind (nextDefinition scope tokens)) tokens (nextDefinition scope tokens) := by
  induction tokens with
  | nil => exact .doneAtEnd none [.source] []
  | cons token tokens ih =>
    obtain ⟨kind, range, file⟩ := token
    cases kind with
    | comment text => exact .cons rfl ih
    | eof => exact .cons rfl (.done none [] tokens)
    | ident name =>
      change Tracks _ (goalsBehind (nextDefinition scope ((⟨file, range⟩ : Location).token (.ident name) :: tokens))) _
        (nextDefinition scope ((⟨file, range⟩ : Location).token (.ident name) :: tokens))
      rw [nextDefinition_ident]
      by_cases hname : isKeyword name = true
      · have hmove : Goal.source.move (.ident name) = .take [.name, .openBrace, .items, .source] := if_pos hname
        have hread : Tracks [.source] [.source] ((⟨file, range⟩ : Location).token (.ident name) :: tokens)
            ((some <$> afterKeyword scope ((⟨file, range⟩ : Location).token (.ident name))) tokens) := by
          apply Tracks.cons (step_take hmove [])
          apply (afterKeyword_tracks _).bind
          intro definition rest _ _
          exact .done (some definition) [.source] rest
        rw [if_pos hname]
        cases hfound : (some <$> afterKeyword scope ((⟨file, range⟩ : Location).token (.ident name))) tokens with
        | ok found rest =>
          obtain ⟨definition, -, rfl⟩ := map_eq_ok.mp hfound
          rw [hfound] at hread
          exact hread
        | error error rest =>
          rw [hfound] at hread
          exact hread
      · have hmove : Goal.source.move (.ident name) = .fault .expectedDefinition := if_neg hname
        rw [if_neg hname]
        exact .fault (step_fault hmove [])
    | _ => exact .fault rfl

theorem length_lt_of_nextDefinition {definition : Definition}
    (h : nextDefinition scope tokens = .ok (some definition) rest) : rest.length < tokens.length := by
  obtain ⟨comments, d, rfl, -⟩ := nextDefinition_eq_some.mp h
  have hlength : 0 < d.tokens.length := List.length_pos_iff.mpr d.tokens_ne_nil
  simp only [List.length_append]
  omega

theorem allDefinitions_tracks (scope : CallScope) (hbound : tokens.length ≤ bound) :
    Tracks [.source] [] tokens (allDefinitions scope bound tokens) := by
  induction bound generalizing tokens with
  | zero =>
    rw [List.eq_nil_of_length_eq_zero (Nat.le_zero.mp hbound)]
    exact .doneAtEnd [] [.source] []
  | succ bound ih =>
    have hnext := nextDefinition_tracks scope tokens
    rw [allDefinitions, bind_apply]
    cases hfound : nextDefinition scope tokens with
    | ok found rest =>
      rw [hfound] at hnext
      cases found with
      | none => exact hnext
      | some definition =>
        have hlength := length_lt_of_nextDefinition hfound
        apply hnext.trans
        apply (ih (by omega)).bind
        intro more rest _ _
        exact .done _ [] rest
    | error error rest =>
      rw [hfound] at hnext
      exact hnext

end Definition

end HtmlTemplate
