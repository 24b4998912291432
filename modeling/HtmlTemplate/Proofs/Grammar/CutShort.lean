import HtmlTemplate.Proofs.Grammar.InTurn
import HtmlTemplate.Proofs.Token.Lossless

/-!
# Token lists that are cut short

Where only the first tokens of a source are there, reading its definitions in turn comes to the same as long as a
token among them is to blame. Otherwise it finds the definitions that are closed among them, and at their end it
finds nothing wrong, or misses the rest of the definition that it is in.

What is wrong with a token is decided by the tokens in front of it, as the automaton shows, and a definition that
was read is the same whatever stands behind it. The rest is about where the cut falls: every definition and every
comment of the source lies on one side of it, but for the one that it cuts.

## Contents

* `Def.closingBrace`, `CutsDefinition` — where a cut falls;
* `Definition.inTurn_take` — the definitions in front of a cut;
* `Definition.run_take_eq_fault`, `inTurn_eq_fault_of_take` — the faults in front of it;
* `Definition.inTurn_of_cutsDefinition`, `cutsDefinition_of_inTurn` — tokens that are missed;
* `inTurn_cutShort` — the main statement.
-/

namespace HtmlTemplate

open Grammar

/-! ## Where a cut falls -/

namespace Grammar

/-- The brace that closes a definition. -/
def Def.closingBrace (d : Def) : Token :=
  match d.block with
  | .mk _ _ rbrace => rbrace.token .rbrace

/-- It is the last token of the definition. -/
theorem Def.tokens_eq_closed (d : Def) : ∃ before, d.tokens = before ++ [d.closingBrace] := by
  obtain ⟨place, keyword, _, namePlace, name, ⟨lbrace, xs, rbrace⟩⟩ := d
  exact ⟨place.token (.ident keyword) :: namePlace.token (.ident name) :: lbrace.token .lbrace ::
    Item.allTokens xs, rfl⟩

theorem Def.closingBrace_mem (d : Def) : d.closingBrace ∈ d.tokens := by
  obtain ⟨before, hbefore⟩ := d.tokens_eq_closed
  rw [hbefore]
  exact List.mem_append_right _ List.mem_cons_self

/-- A token with which a definition begins. -/
def IsKeyword (token : Token) : Prop := ∃ name, token.kind = .ident name ∧ Definition.isKeyword name = true

/-- The first `count` of some tokens end inside a definition. Behind comments and complete definitions they have the
    keyword of one, and of no definition that begins with it they have the closing brace. -/
def CutsDefinition (tokens : List Token) (count : Nat) : Prop :=
  ∃ (parts : List Part) (keyword : Token) (after : List Token),
    tokens = parts.flatMap Part.tokens ++ keyword :: after ∧ IsKeyword keyword ∧ keyword ∈ tokens.take count ∧
      ∀ (d : Def) (rest : List Token), keyword :: after = d.tokens ++ rest → d.closingBrace ∉ tokens.take count

variable {tokens before after : List Token} {token : Token} {count : Nat}

/-- A token is among the first ones if fewer stand in front of it. -/
theorem mem_take_iff (h : (before ++ token :: after).Nodup) :
    token ∈ (before ++ token :: after).take count ↔ before.length < count := by
  have hbefore : token ∉ before := fun hmem => (List.nodup_append.mp h).2.2 _ hmem _ List.mem_cons_self rfl
  rw [List.mem_take_iff_idxOf_lt (List.mem_append_right _ List.mem_cons_self), List.idxOf_append_of_notMem hbefore,
    List.idxOf_cons_self, Nat.add_zero]

/-- All tokens in front of one of the first are among the first. -/
theorem take_of_mem (h : (before ++ token :: after).Nodup) (hmem : token ∈ (before ++ token :: after).take count) :
    (before ++ token :: after).take count = before ++ token :: after.take (count - (before.length + 1)) := by
  have hcount := (mem_take_iff h).mp hmem
  obtain ⟨more, rfl⟩ := Nat.exists_eq_add_of_lt hcount
  rw [List.take_append, List.take_of_length_le (Nat.le_of_lt hcount), Nat.add_assoc, Nat.add_sub_cancel_left,
    List.take_succ_cons, ← Nat.add_assoc, Nat.add_right_comm, Nat.add_sub_cancel_left]

/-- The closing brace of a definition is among the first tokens if all of the definition is. -/
theorem Def.closingBrace_mem_take (d : Def) (h : (d.tokens ++ after).Nodup) :
    d.closingBrace ∈ (d.tokens ++ after).take count ↔ d.tokens.length ≤ count := by
  obtain ⟨inner, hinner⟩ := d.tokens_eq_closed
  rw [hinner, List.append_assoc, List.singleton_append] at h ⊢
  rw [mem_take_iff h, List.length_append, List.length_singleton]
  omega

/-- All tokens of a definition are among the first if its closing brace is. -/
theorem Def.take_of_closed (d : Def) (h : (before ++ (d.tokens ++ after)).Nodup)
    (hclosed : d.closingBrace ∈ (before ++ (d.tokens ++ after)).take count) :
    ∃ more, (before ++ (d.tokens ++ after)).take count = before ++ (d.tokens ++ more) := by
  obtain ⟨inner, hinner⟩ := d.tokens_eq_closed
  have hlist : ∀ more, before ++ (d.tokens ++ more) = (before ++ inner) ++ d.closingBrace :: more := by
    intro more
    rw [hinner, List.append_assoc, List.append_assoc]
    rfl
  simp only [hlist] at h hclosed ⊢
  exact ⟨_, take_of_mem h hclosed⟩

/-- Behind other tokens, fewer of some tokens are among the first. -/
theorem mem_take_append_iff (h : (before ++ after).Nodup) (hmem : token ∈ after) :
    token ∈ (before ++ after).take count ↔ token ∈ after.take (count - before.length) := by
  rw [List.take_append, List.mem_append]
  refine ⟨fun hor => hor.resolve_left fun hfront => ?_, .inr⟩
  exact (List.nodup_append.mp h).2.2 _ (List.mem_of_mem_take hfront) _ hmem rfl

theorem closingBrace_mem_of_mem {parts : List Part} {d : Def} (h : d ∈ parts.filterMap Part.def?) :
    d.closingBrace ∈ parts.flatMap Part.tokens := by
  obtain ⟨part, hpart, hd⟩ := List.mem_filterMap.mp h
  cases part with
  | comment c => cases hd
  | definition d' =>
    cases hd
    exact List.mem_flatMap.mpr ⟨_, hpart, d.closingBrace_mem⟩

end Grammar

/-! ## Reading up to a cut -/

namespace Definition

open TokenReader

variable {scope : CallScope} {tokens rest : List Token} {count : Nat}

/-- A definition is read in the same way whatever stands behind it. -/
theorem nextDefinition_append {definition : Definition}
    (h : nextDefinition scope tokens = .ok (some definition) rest) (more : List Token) :
    nextDefinition scope (tokens ++ more) = .ok (some definition) (rest ++ more) := by
  obtain ⟨comments, d, rfl, hd⟩ := nextDefinition_eq_some.mp h
  exact nextDefinition_eq_some.mpr ⟨comments, d, by rw [List.append_assoc, List.append_assoc], hd⟩

/-- In a part of a definition, none is found. -/
theorem inTurn_take_part (part : Part) (h : count < part.tokens.length) :
    (inTurn scope (part.tokens.take count)).1 = [] := by
  apply inTurn_fst_eq_nil
  intro definition behind hfound
  cases part with
  | comment c =>
    obtain rfl := Nat.lt_one_iff.mp h
    cases hfound
  | definition d =>
    have hagain := nextDefinition_append hfound (d.tokens.drop count)
    have hwhole : nextDefinition scope d.tokens = .ok (some (d.definition scope)) [] :=
      nextDefinition_eq_some.mpr ⟨[], d, (List.append_nil _).symm, rfl⟩
    rw [Part.tokens, List.take_append_drop, hwhole] at hagain
    obtain ⟨-, hbehind⟩ := Reading.ok.inj hagain
    have hdrop := List.drop_eq_nil_iff.mp (List.append_eq_nil_iff.mp hbehind.symm).2
    exact absurd h (Nat.not_lt.mpr hdrop)

/-- **The definitions in front of a cut** are those that are closed there. -/
theorem inTurn_take (parts : List Part) (hnodup : (parts.flatMap Part.tokens ++ rest).Nodup)
    (hrest : ∀ definition behind, nextDefinition scope rest ≠ .ok (some definition) behind) :
    (inTurn scope ((parts.flatMap Part.tokens ++ rest).take count)).1 =
      ((parts.filterMap Part.def?).filter fun d =>
        d.closingBrace ∈ (parts.flatMap Part.tokens ++ rest).take count).map (Def.definition scope) := by
  induction parts generalizing count with
  | nil =>
    apply inTurn_fst_eq_nil
    intro definition behind hfound
    apply hrest definition (behind ++ rest.drop count)
    rw [← nextDefinition_append hfound, List.flatMap_nil, List.nil_append, List.take_append_drop]
  | cons part parts ih =>
    rw [List.flatMap_cons, List.append_assoc] at hnodup ⊢
    have hmore := (List.nodup_append.mp hnodup).2.1
    -- The closing braces behind the first part are among the tokens behind it.
    have hclosed : (parts.filterMap Part.def?).filter (fun d => d.closingBrace ∈
          (part.tokens ++ (parts.flatMap Part.tokens ++ rest)).take count) =
        (parts.filterMap Part.def?).filter (fun d => d.closingBrace ∈
          (parts.flatMap Part.tokens ++ rest).take (count - part.tokens.length)) := by
      apply List.filter_congr
      intro d hd
      exact decide_eq_decide.mpr (mem_take_append_iff hnodup (List.mem_append_left _ (closingBrace_mem_of_mem hd)))
    have hih := @ih (count - part.tokens.length) hmore
    rw [← hclosed] at hih
    by_cases hcount : part.tokens.length ≤ count
    · -- All of the part is there.
      have htake : (part.tokens ++ (parts.flatMap Part.tokens ++ rest)).take count =
          [part].flatMap Part.tokens ++ (parts.flatMap Part.tokens ++ rest).take (count - part.tokens.length) := by
        rw [List.take_append, List.take_of_length_le hcount, List.flatMap_singleton]
      rw [htake, inTurn_parts, ← htake, hih]
      cases part with
      | comment c => rfl
      | definition d =>
        have hd : d.closingBrace ∈ ((Part.definition d).tokens ++ (parts.flatMap Part.tokens ++ rest)).take count :=
          (d.closingBrace_mem_take hnodup).mpr hcount
        have hdefs : (Part.definition d :: parts).filterMap Part.def? = d :: parts.filterMap Part.def? := rfl
        rw [hdefs, List.filter_cons_of_pos (by exact decide_eq_true hd)]
        rfl
    · -- The part is cut, and nothing behind it is there.
      have htake : (part.tokens ++ (parts.flatMap Part.tokens ++ rest)).take count = part.tokens.take count :=
        List.take_append_of_le_length (Nat.le_of_not_le hcount)
      rw [Nat.sub_eq_zero_of_le (Nat.le_of_not_le hcount), List.take_zero, inTurn_of_none rfl] at hih
      rw [htake, inTurn_take_part part (Nat.lt_of_not_le hcount), ← htake]
      cases part with
      | comment c => exact hih
      | definition d =>
        have hd : d.closingBrace ∉ ((Part.definition d).tokens ++ (parts.flatMap Part.tokens ++ rest)).take count :=
          mt (d.closingBrace_mem_take hnodup).mp hcount
        have hdefs : (Part.definition d :: parts).filterMap Part.def? = d :: parts.filterMap Part.def? := rfl
        rw [hdefs, List.filter_cons_of_neg (by exact ne_true_of_eq_false (decide_eq_false hd))]
        exact hih

/-! ## What is found at a cut -/

theorem nextDefinition_keyword {keyword : Token} (h : IsKeyword keyword) :
    nextDefinition scope (keyword :: tokens) ≠ .ok none rest := by
  intro hnone
  obtain ⟨name, hkind, -⟩ := h
  obtain ⟨comments, ⟨hcomments, -⟩ | ⟨eof, hcomments⟩⟩ := nextDefinition_eq_none.mp hnone
  all_goals
    cases comments with
    | nil => cases hcomments <;> cases hkind
    | cons comment comments =>
      cases hcomments
      cases hkind

/-- What begins with a keyword is a definition, without comments in front. -/
theorem nextDefinition_keyword_eq_some {keyword : Token} {definition : Definition} (h : IsKeyword keyword)
    (hfound : nextDefinition scope (keyword :: tokens) = .ok (some definition) rest) :
    ∃ d : Def, keyword :: tokens = d.tokens ++ rest := by
  obtain ⟨name, hkind, -⟩ := h
  obtain ⟨comments, d, hcomments, -⟩ := nextDefinition_eq_some.mp hfound
  cases comments with
  | nil => exact ⟨d, hcomments⟩
  | cons comment comments =>
    cases hcomments
    cases hkind

/-- Tokens are missed behind a keyword. -/
theorem nextDefinition_endOfTokens {file : Nat} (h : nextDefinition scope tokens = .error (.endOfTokens file) rest) :
    ∃ (comments : List Comment) (keyword : Token) (after : List Token),
      tokens = commentTokens comments ++ keyword :: after ∧ IsKeyword keyword := by
  obtain ⟨comments, keyword, after, rfl, ⟨hfault, -⟩ | ⟨hkeyword, -⟩⟩ := nextDefinition_eq_error h
  · cases hfault
  · exact ⟨comments, keyword, after, rfl, hkeyword⟩

/-- What is wrong with a token is decided in front of a cut behind it. -/
theorem run_take_eq_fault {goals : List Goal} {cause : SyntaxFault} {token : Token} (hnodup : tokens.Nodup)
    (h : run goals tokens = .error (.fault cause token)) (hmem : token ∈ tokens.take count) :
    run goals (tokens.take count) = .error (.fault cause token) := by
  rw [← List.take_append_drop count tokens, run_append] at h
  cases hrun : run goals (tokens.take count) with
  | error error =>
    rw [hrun] at h
    exact h
  | ok left =>
    rw [hrun] at h
    obtain ⟨before, after, _, hdrop, -, -⟩ := run_eq_fault h
    have hbehind : token ∈ tokens.drop count := hdrop ▸ List.mem_append_right _ List.mem_cons_self
    exact absurd hbehind (List.disjoint_take_drop hnodup (Nat.le_refl count) hmem)

/-- A token that does not fit in front of a cut is to blame for everything. -/
theorem inTurn_eq_fault_of_take {cause : SyntaxFault} {token : Token}
    (h : (inTurn scope (tokens.take count)).2 = some (.fault cause token)) :
    (inTurn scope tokens).2 = some (.fault cause token) := by
  rw [inTurn_snd_eq_fault] at h ⊢
  rw [← List.take_append_drop count tokens, run_append, h]
  rfl

/-- Behind a cut that falls inside a definition tokens are missed. -/
theorem inTurn_of_cutsDefinition (hnodup : tokens.Nodup) (h : CutsDefinition tokens count) :
    (inTurn scope (tokens.take count)).2 ≠ none := by
  obtain ⟨parts, keyword, after, rfl, hkeyword, hmem, hopen⟩ := h
  have htake := take_of_mem hnodup hmem
  rw [htake, inTurn_parts]
  cases hfound : nextDefinition scope (keyword :: after.take (count - ((parts.flatMap Part.tokens).length + 1))) with
  | ok found rest =>
    cases found with
    | none => exact absurd hfound (nextDefinition_keyword hkeyword)
    | some definition =>
      -- The definition would be closed in front of the cut.
      obtain ⟨d, hd⟩ := nextDefinition_keyword_eq_some hkeyword hfound
      have hwhole : keyword :: after =
          d.tokens ++ (rest ++ after.drop (count - ((parts.flatMap Part.tokens).length + 1))) := by
        rw [← List.append_assoc, ← hd, List.cons_append, List.take_append_drop]
      apply absurd _ (hopen d _ hwhole)
      rw [htake, hd]
      exact List.mem_append_right _ (List.mem_append_left _ d.closingBrace_mem)
  | error error rest =>
    rw [inTurn_of_error hfound]
    exact nofun

/-- Tokens are missed where the cut falls inside a definition. -/
theorem cutsDefinition_of_inTurn {file : Nat} (hnodup : tokens.Nodup)
    (h : (inTurn scope (tokens.take count)).2 = some (.endOfTokens file)) : CutsDefinition tokens count := by
  obtain ⟨parts, rest, hcut, hrest⟩ := exists_parts scope (tokens.take count)
  rw [hcut, inTurn_parts] at h
  cases hfound : nextDefinition scope rest with
  | ok found behind =>
    cases found with
    | none =>
      rw [inTurn_of_none hfound] at h
      cases h
    | some definition => exact absurd hfound (hrest definition behind)
  | error error behind =>
    rw [inTurn_of_error hfound] at h
    cases h
    obtain ⟨comments, keyword, after, rfl, hkeyword⟩ := nextDefinition_endOfTokens hfound
    have hfront : tokens.take count = (parts ++ commentParts comments).flatMap Part.tokens ++ keyword :: after := by
      rw [hcut, List.flatMap_append, tokens_commentParts, List.append_assoc]
    have hwhole : tokens = (parts ++ commentParts comments).flatMap Part.tokens ++
        keyword :: (after ++ tokens.drop count) := by
      rw [← List.cons_append, ← List.append_assoc, ← hfront, List.take_append_drop]
    refine ⟨_, keyword, _, hwhole, hkeyword, ?_, ?_⟩
    · rw [hfront]
      exact List.mem_append_right _ List.mem_cons_self
    · intro d rest' hd hclosed
      -- The definition would have been found.
      rw [hd] at hwhole
      rw [hwhole] at hnodup hclosed
      obtain ⟨more, hmore⟩ := d.take_of_closed hnodup hclosed
      rw [← hwhole, hfront] at hmore
      have hread : nextDefinition scope (commentTokens comments ++ keyword :: after) =
          .ok (some (d.definition scope)) more :=
        nextDefinition_eq_some.mpr ⟨comments, d, by rw [List.append_cancel_left hmore], rfl⟩
      cases hfound.symm.trans hread

end Definition

/-! ## The main statement -/

open Definition

/-- A token among these is to blame for the error. -/
def Blames (error : Option SyntaxError) (tokens : List Token) : Prop :=
  ∃ cause token, error = some (.fault cause token) ∧ token ∈ tokens

/-- **A cut neither invents nor hides an error.** If a token in front of the cut is to blame for the error that all
    the tokens have, then the tokens in front of the cut come to the same definitions and the same error.
    Otherwise they come to the definitions that are closed in front of the cut, and there is nothing wrong, or
    tokens are missed; and that exactly where the cut falls inside a definition. -/
theorem inTurn_cutShort {code : String} {file : Nat} {tokens : List Token} (htokens : tokenize code file = .ok tokens)
    (scope : CallScope) (count : Nat) :
    (Blames (inTurn scope tokens).2 (tokens.take count) → inTurn scope (tokens.take count) = inTurn scope tokens) ∧
    (¬ Blames (inTurn scope tokens).2 (tokens.take count) →
      (∃ (parts : List Part) (rest : List Token), tokens = parts.flatMap Part.tokens ++ rest ∧
        (inTurn scope tokens).1 = (parts.filterMap Part.def?).map (Def.definition scope) ∧
        (inTurn scope (tokens.take count)).1 =
          ((parts.filterMap Part.def?).filter fun d => d.closingBrace ∈ tokens.take count).map
            (Def.definition scope)) ∧
      ((inTurn scope (tokens.take count)).2 = none ∧ ¬ CutsDefinition tokens count ∨
        (inTurn scope (tokens.take count)).2 = some (.endOfTokens scope.file) ∧ CutsDefinition tokens count)) := by
  have hnodup := nodup_of_tokenize htokens
  obtain ⟨parts, rest, hparts, hrest⟩ := exists_parts scope tokens
  have hwhole : inTurn scope tokens =
      ((parts.filterMap Part.def?).map (Def.definition scope), (inTurn scope rest).2) := by
    rw [hparts, inTurn_parts, inTurn_fst_eq_nil hrest, List.append_nil]
  have hcut : (inTurn scope (tokens.take count)).1 =
      ((parts.filterMap Part.def?).filter fun d => d.closingBrace ∈ tokens.take count).map (Def.definition scope) := by
    rw [hparts] at hnodup ⊢
    exact inTurn_take parts hnodup hrest
  constructor
  · rintro ⟨cause, token, herror, hmem⟩
    have hrun := run_take_eq_fault hnodup (inTurn_snd_eq_fault.mp herror) hmem
    -- The token stands behind all the definitions, so none of them is cut.
    have hbehind : token ∈ rest := by
      rw [hwhole] at herror
      exact mem_of_inTurn_fault herror
    have hclosed : ∀ d ∈ parts.filterMap Part.def?, d.closingBrace ∈ tokens.take count := by
      intro d hd
      rw [hparts] at hnodup hmem ⊢
      have hpos := List.length_pos_of_mem ((mem_take_append_iff hnodup hbehind).mp hmem)
      rw [List.length_take] at hpos
      rw [List.take_append, List.take_of_length_le (by omega)]
      exact List.mem_append_left _ (closingBrace_mem_of_mem hd)
    have hall : (inTurn scope (tokens.take count)).1 = (inTurn scope tokens).1 := by
      rw [hcut, hwhole, List.filter_eq_self.mpr fun d hd => decide_eq_true (hclosed d hd)]
    exact Prod.ext hall ((inTurn_snd_eq_fault.mpr hrun).trans herror.symm)
  · intro hblames
    refine ⟨⟨parts, rest, hparts, by rw [hwhole], hcut⟩, ?_⟩
    cases hended : (inTurn scope (tokens.take count)).2 with
    | none => exact .inl ⟨rfl, fun hcuts => inTurn_of_cutsDefinition hnodup hcuts hended⟩
    | some error =>
      cases error with
      | fault cause token =>
        exact absurd ⟨cause, token, inTurn_eq_fault_of_take hended, mem_of_inTurn_fault hended⟩ hblames
      | endOfTokens missed =>
        have hcuts := cutsDefinition_of_inTurn hnodup hended
        rw [inTurn_endsIn hended]
        exact .inr ⟨rfl, hcuts⟩

/-- Two definitions, and a brace that cannot be the value of an argument. In front of this brace the first of the
    definitions is found, and the rest of the second one is missed. -/
theorem inTurn_cutShort_argument :
    let code := "DEF a \x7b\x7d def b \x7b c(x: \x7d"
    let scope : CallScope := ⟨0, fun _ => false⟩
    let token (kind : TokenKind Range) (column stop : Nat) : Token := ⟨kind, ⟨⟨1, column⟩, ⟨1, stop⟩⟩, 0⟩
    let tokens := [token (.ident "DEF") 1 4, token (.ident "a") 5 6, token .lbrace 7 8, token .rbrace 8 9,
      token (.ident "def") 10 13, token (.ident "b") 14 15, token .lbrace 16 17, token (.ident "c") 18 19,
      token .lparen 19 20, token (.ident "x") 20 21, token .colon 21 22, token .rbrace 23 24, token .eof 24 24]
    tokenize code 0 = .ok tokens ∧ ¬ Blames (inTurn scope tokens).2 (tokens.take 11) ∧
      (∃ (parts : List Part) (rest : List Token), tokens = parts.flatMap Part.tokens ++ rest ∧
        (inTurn scope tokens).1 = (parts.filterMap Part.def?).map (Def.definition scope) ∧
        (inTurn scope (tokens.take 11)).1 =
          ((parts.filterMap Part.def?).filter fun d => d.closingBrace ∈ tokens.take 11).map (Def.definition scope)) ∧
      (inTurn scope (tokens.take 11)).2 = some (.endOfTokens 0) ∧ CutsDefinition tokens 11 := by
  intro code scope token tokens
  have htokens : tokenize code 0 = .ok tokens := by decide +kernel
  let first : Definition := ⟨"a", ⟨0, ⟨1, 1⟩, ⟨1, 4⟩⟩, .body ⟨0, ⟨1, 7⟩, ⟨1, 8⟩⟩ []⟩
  have hfirst : nextDefinition scope tokens = .ok (some first) (tokens.drop 4) := by decide +kernel
  have hsecond : nextDefinition scope (tokens.drop 4) =
      .error (.fault .unexpectedToken (token .rbrace 23 24)) (tokens.drop 12) := by decide +kernel
  have hcutFirst : nextDefinition scope (tokens.take 11) = .ok (some first) ((tokens.take 11).drop 4) := by
    decide +kernel
  have hcutSecond : nextDefinition scope ((tokens.take 11).drop 4) = .error (.endOfTokens 0) [] := by decide +kernel
  have hblames : ¬ Blames (inTurn scope tokens).2 (tokens.take 11) := by
    rintro ⟨cause, other, herror, hmem⟩
    rw [inTurn_of_some hfirst, inTurn_of_error hsecond] at herror
    cases herror
    revert hmem
    decide +kernel
  obtain ⟨hdefs, herror⟩ := (inTurn_cutShort htokens scope 11).2 hblames
  refine ⟨htokens, hblames, hdefs, herror.resolve_left ?_⟩
  rintro ⟨hnone, -⟩
  rw [inTurn_of_some hcutFirst, inTurn_of_error hcutSecond] at hnone
  cases hnone

end HtmlTemplate
