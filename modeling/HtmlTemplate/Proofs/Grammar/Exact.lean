import HtmlTemplate.Proofs.Grammar.Unique
import HtmlTemplate.Token.Scan

/-!
# Exactly the grammar is read

The definitions of a token list are those of its derivations, and a token list without derivation is refused. A token
list has more than one derivation only where a comment stands behind the parenthesis of a call with arguments.

## Contents

* `Definition.nextDefinition_eq_some`, `nextDefinition_eq_none` — one definition, or the end of the source;
* `Source.settle_eq`, `Source.tokens_settle` — derivations of a whole source;
* `definitions_exact` — the main statement;
* `not_unique_derivation` — a source with two derivations.
-/

namespace HtmlTemplate

open Grammar

namespace Definition

open TokenReader

variable {scope : CallScope} {tokens rest : List Token}

/-! ## The next definition -/

theorem afterKeyword_eq_ok {keyword : Token} {definition : Definition} :
    afterKeyword scope keyword tokens = .ok definition rest ↔
      ∃ (namePlace : Location) (name : String) (block : Block),
        tokens = namePlace.token (.ident name) :: (block.tokens ++ rest) ∧
          ⟨name, keyword.location, block.node scope⟩ = definition := by
  rw [afterKeyword, bind_eq_ok]
  constructor
  · rintro ⟨name, _, hname, h⟩
    obtain ⟨namePlace, rfl⟩ := ident_eq_ok.mp hname
    rw [bind_eq_ok] at h
    obtain ⟨lbrace, _, hlbrace, h⟩ := h
    obtain ⟨hkind, rfl⟩ := expect_eq_ok.mp hlbrace
    rw [bind_eq_ok] at h
    obtain ⟨_, _, hchildren, h⟩ := h
    obtain ⟨xs, rbrace, rfl, rfl⟩ := (sound scope _).1 hchildren
    obtain ⟨rfl, rfl⟩ := pure_eq_ok.mp h
    refine ⟨namePlace, name, .mk lbrace.location xs rbrace, ?_, rfl⟩
    rw [eq_token hkind, Block.tokens]
    simp only [List.cons_append, List.append_assoc, List.nil_append, Location.location_token]
  · rintro ⟨namePlace, name, ⟨lbrace, xs, rbrace⟩, rfl, rfl⟩
    simp only [Block.tokens, List.cons_append, List.append_assoc, List.nil_append]
    have hitems := (complete scope (namePlace.token (.ident name) :: lbrace.token .lbrace ::
      (Item.allTokens xs ++ rbrace.token .rbrace :: rest)).length).1 xs rbrace rest (by
        simp only [List.length_cons, List.length_append]
        omega)
    refine ⟨name, _, ident_eq_ok.mpr ⟨namePlace, rfl⟩, bind_eq_ok.mpr ⟨_, _, expect_eq_ok.mpr ⟨rfl, rfl⟩, ?_⟩⟩
    exact bind_eq_ok.mpr ⟨_, _, hitems, rfl⟩

/-- Comments in front of a definition are skipped. -/
theorem nextDefinition_comments (comments : List Comment) :
    nextDefinition scope (commentTokens comments ++ tokens) = nextDefinition scope tokens := by
  induction comments with
  | nil => rfl
  | cons comment comments ih => exact ih

/-- At a name, the keyword decides. -/
theorem nextDefinition_ident (place : Location) (name : String) :
    nextDefinition scope (place.token (.ident name) :: tokens) =
      if isKeyword name then (some <$> afterKeyword scope (place.token (.ident name))) tokens
      else .error (.fault .expectedDefinition (place.token (.ident name))) tokens := rfl

theorem map_eq_ok {α β : Type} {f : α → β} {reader : TokenReader α} {value : β} :
    (f <$> reader) tokens = .ok value rest ↔ ∃ first, reader tokens = .ok first rest ∧ f first = value := by
  show (reader >>= fun first => pure (f first)) tokens = .ok value rest ↔ _
  rw [bind_eq_ok]
  constructor
  · rintro ⟨first, _, hfirst, h⟩
    obtain ⟨rfl, rfl⟩ := pure_eq_ok.mp h
    exact ⟨first, hfirst, rfl⟩
  · rintro ⟨first, hfirst, rfl⟩
    exact ⟨first, rest, hfirst, rfl⟩

/-- **The next definition** is a phrase of the grammar behind comments. -/
theorem nextDefinition_eq_some {definition : Definition} :
    nextDefinition scope tokens = .ok (some definition) rest ↔
      ∃ (comments : List Comment) (d : Def),
        tokens = commentTokens comments ++ (d.tokens ++ rest) ∧ d.definition scope = definition := by
  constructor
  · intro h
    induction tokens with
    | nil => cases h
    | cons token tokens ih =>
      obtain ⟨kind, range, file⟩ := token
      cases kind with
      | comment text =>
        obtain ⟨comments, d, rfl, rfl⟩ := ih h
        exact ⟨⟨⟨file, range⟩, text⟩ :: comments, d, rfl, rfl⟩
      | ident name =>
        change nextDefinition scope ((⟨file, range⟩ : Location).token (.ident name) :: tokens) = _ at h
        rw [nextDefinition_ident] at h
        by_cases hname : isKeyword name = true
        · rw [if_pos hname, map_eq_ok] at h
          obtain ⟨_, h, hdefinition⟩ := h
          cases hdefinition
          obtain ⟨namePlace, defName, block, rfl, rfl⟩ := afterKeyword_eq_ok.mp h
          exact ⟨[], ⟨⟨file, range⟩, name, hname, namePlace, defName, block⟩, rfl, rfl⟩
        · rw [if_neg hname] at h
          cases h
      | _ => cases h
  · rintro ⟨comments, ⟨place, keyword, hkeyword, namePlace, name, block⟩, rfl, rfl⟩
    rw [nextDefinition_comments, Def.tokens, List.cons_append, List.cons_append, nextDefinition_ident,
      if_pos hkeyword, map_eq_ok]
    exact ⟨_, afterKeyword_eq_ok.mpr ⟨namePlace, name, block, rfl, rfl⟩, rfl⟩

/-- There is no next definition where the source ends, or where the tokens do, behind comments. -/
theorem nextDefinition_eq_none :
    nextDefinition scope tokens = .ok none rest ↔
      ∃ comments : List Comment, (tokens = commentTokens comments ∧ rest = []) ∨
        ∃ eof : Location, tokens = commentTokens comments ++ eof.token .eof :: rest := by
  constructor
  · intro h
    induction tokens with
    | nil =>
      cases h
      exact ⟨[], .inl ⟨rfl, rfl⟩⟩
    | cons token tokens ih =>
      obtain ⟨kind, range, file⟩ := token
      cases kind with
      | comment text =>
        obtain ⟨comments, ⟨rfl, rfl⟩ | ⟨eof, rfl⟩⟩ := ih h
        · exact ⟨⟨⟨file, range⟩, text⟩ :: comments, .inl ⟨rfl, rfl⟩⟩
        · exact ⟨⟨⟨file, range⟩, text⟩ :: comments, .inr ⟨eof, rfl⟩⟩
      | eof =>
        cases h
        exact ⟨[], .inr ⟨⟨file, range⟩, rfl⟩⟩
      | ident name =>
        change nextDefinition scope ((⟨file, range⟩ : Location).token (.ident name) :: tokens) = _ at h
        rw [nextDefinition_ident] at h
        by_cases hname : isKeyword name = true
        · rw [if_pos hname, map_eq_ok] at h
          obtain ⟨_, _, hsome⟩ := h
          cases hsome
        · rw [if_neg hname] at h
          cases h
      | _ => cases h
  · rintro ⟨comments, ⟨rfl, rfl⟩ | ⟨eof, rfl⟩⟩
    · rw [← List.append_nil (commentTokens comments), nextDefinition_comments]
      rfl
    · rw [nextDefinition_comments]
      rfl

end Definition

/-! ## All definitions -/

namespace Grammar

variable {tokens rest : List Token}

theorem Def.tokens_ne_nil (d : Def) : d.tokens ≠ [] := nofun

/-- A definition ends with a brace. -/
theorem Def.tokens_eq_append (d : Def) : ∃ (before : List Token) (rbrace : Location),
    d.tokens = before ++ [rbrace.token .rbrace] := by
  obtain ⟨place, keyword, _, namePlace, name, ⟨lbrace, xs, rbrace⟩⟩ := d
  exact ⟨place.token (.ident keyword) :: namePlace.token (.ident name) :: lbrace.token .lbrace ::
    Item.allTokens xs, rbrace, rfl⟩

theorem commentTokens_ne_eof {comments : List Comment} {token : Token} (h : token ∈ commentTokens comments) :
    token.kind ≠ .eof := by
  obtain ⟨comment, -, rfl⟩ := List.mem_map.mp h
  exact nofun

/-- The first end of the source in a token list. -/
theorem append_eof_inj {inner inner' : List Token} {eof eof' : Token} (hinner : ∀ token ∈ inner, token.kind ≠ .eof)
    (hinner' : ∀ token ∈ inner', token.kind ≠ .eof) (heof : eof.kind = .eof) (heof' : eof'.kind = .eof)
    (h : inner ++ eof :: rest = inner' ++ eof' :: tokens) : inner = inner' ∧ eof = eof' ∧ rest = tokens := by
  induction inner generalizing inner' with
  | nil =>
    cases inner' with
    | nil =>
      obtain ⟨rfl, rfl⟩ := List.cons.inj h
      exact ⟨rfl, rfl, rfl⟩
    | cons token inner' =>
      obtain ⟨rfl, -⟩ := List.cons.inj h
      exact absurd heof (hinner' eof List.mem_cons_self)
  | cons token inner ih =>
    cases inner' with
    | nil =>
      obtain ⟨rfl, -⟩ := List.cons.inj h
      exact absurd heof' (hinner token List.mem_cons_self)
    | cons token' inner' =>
      obtain ⟨rfl, hmore⟩ := List.cons.inj h
      obtain ⟨rfl, rfl, rfl⟩ := ih (fun t ht => hinner t (List.mem_cons_of_mem _ ht))
        (fun t ht => hinner' t (List.mem_cons_of_mem _ ht)) hmore
      exact ⟨rfl, rfl, rfl⟩

/-- Comments as parts of a source. -/
def commentParts (comments : List Comment) : List Part := comments.map Part.comment

theorem tokens_commentParts (comments : List Comment) :
    (commentParts comments).flatMap Part.tokens = commentTokens comments := by
  rw [commentParts, commentTokens, List.flatMap_map, List.map_eq_flatMap]
  rfl

theorem def?_commentParts (comments : List Comment) : (commentParts comments).filterMap Part.def? = [] := by
  rw [commentParts, List.filterMap_map, List.filterMap_eq_nil_iff]
  exact fun _ _ => rfl

/-- The end of a source stands behind its last definition. -/
theorem Def.eof_behind {d : Def} {before inner : List Token} {eof : Location}
    (h : inner ++ [eof.token .eof] = before ++ (d.tokens ++ rest)) :
    ∃ more, rest = more ++ [eof.token .eof] ∧ inner = before ++ (d.tokens ++ more) := by
  obtain rfl | ⟨more, last, rfl⟩ := List.eq_nil_or_concat rest
  · obtain ⟨front, rbrace, hd⟩ := d.tokens_eq_append
    rw [hd, List.append_nil, ← List.append_assoc] at h
    obtain ⟨-, hlast⟩ := List.append_inj' h rfl
    cases hlast
  · rw [List.concat_eq_append, ← List.append_assoc, ← List.append_assoc] at h
    obtain ⟨rfl, hlast⟩ := List.append_inj' h rfl
    obtain ⟨rfl, -⟩ := List.cons.inj hlast
    exact ⟨more, List.concat_eq_append, List.append_assoc ..⟩

end Grammar

namespace Definition

variable {scope : CallScope} {inner rest : List Token}

theorem allDefinitions_sound {bound : Nat} {defs : List Definition} {eof : Location} (hbound : inner.length < bound)
    (hinner : ∀ token ∈ inner, token.kind ≠ .eof)
    (h : allDefinitions scope bound (inner ++ [eof.token .eof]) = .ok defs rest) :
    ∃ parts : List Part, parts.flatMap Part.tokens = inner ∧
      (parts.filterMap Part.def?).map (Def.definition scope) = defs := by
  induction bound generalizing inner defs with
  | zero => exact absurd hbound (Nat.not_lt_zero _)
  | succ bound ih =>
    rw [allDefinitions, TokenReader.bind_eq_ok] at h
    obtain ⟨found, behind, hfound, h⟩ := h
    cases found with
    | none =>
      obtain ⟨rfl, rfl⟩ := TokenReader.pure_eq_ok.mp h
      obtain ⟨comments, ⟨hcomments, -⟩ | ⟨eof', hcomments⟩⟩ := nextDefinition_eq_none.mp hfound
      · have hmem : eof.token .eof ∈ commentTokens comments := by
          rw [← hcomments]
          exact List.mem_append_right _ List.mem_cons_self
        exact absurd rfl (commentTokens_ne_eof hmem)
      · obtain ⟨rfl, -, -⟩ := append_eof_inj hinner (fun _ => commentTokens_ne_eof) rfl rfl hcomments
        exact ⟨commentParts comments, tokens_commentParts comments, by rw [def?_commentParts]; rfl⟩
    | some definition =>
      obtain ⟨comments, d, htokens, rfl⟩ := nextDefinition_eq_some.mp hfound
      obtain ⟨more, rfl, rfl⟩ := Def.eof_behind htokens
      obtain ⟨_, _, hmore, hdefs⟩ := TokenReader.bind_eq_ok.mp h
      obtain ⟨rfl, rfl⟩ := TokenReader.pure_eq_ok.mp hdefs
      have hlength : 0 < d.tokens.length := List.length_pos_iff.mpr d.tokens_ne_nil
      rw [List.length_append, List.length_append] at hbound
      obtain ⟨parts, hparts, rfl⟩ := ih (by omega) (fun token htoken => hinner token (by simp [htoken])) hmore
      refine ⟨commentParts comments ++ .definition d :: parts, ?_, ?_⟩
      · rw [List.flatMap_append, tokens_commentParts, List.flatMap_cons, hparts]
        rfl
      · rw [List.filterMap_append, def?_commentParts]
        rfl

theorem allDefinitions_complete (scope : CallScope) (parts : List Part) (eof : Location) (bound : Nat)
    (hbound : (parts.flatMap Part.tokens).length < bound) :
    allDefinitions scope bound (parts.flatMap Part.tokens ++ [eof.token .eof]) =
      .ok ((parts.filterMap Part.def?).map (Def.definition scope)) [] := by
  induction parts generalizing bound with
  | nil =>
    obtain ⟨bound, rfl⟩ : ∃ less, bound = less + 1 := ⟨bound - 1, by simp at hbound; omega⟩
    rfl
  | cons part parts ih =>
    obtain ⟨bound, rfl⟩ : ∃ less, bound = less + 1 := ⟨bound - 1, by omega⟩
    rw [List.flatMap_cons, List.length_append] at hbound
    rw [List.flatMap_cons, List.append_assoc]
    cases part with
    | comment c => exact ih (bound + 1) (by omega)
    | definition d =>
      have hlength : 0 < d.tokens.length := List.length_pos_iff.mpr d.tokens_ne_nil
      have hfound : nextDefinition scope (d.tokens ++ (parts.flatMap Part.tokens ++ [eof.token .eof])) =
          .ok (some (d.definition scope)) (parts.flatMap Part.tokens ++ [eof.token .eof]) :=
        nextDefinition_eq_some.mpr ⟨[], d, rfl, rfl⟩
      have hmore := ih bound (by simp only [Part.tokens] at hbound; omega)
      exact TokenReader.bind_eq_ok.mpr ⟨_, _, hfound, TokenReader.bind_eq_ok.mpr ⟨_, _, hmore, rfl⟩⟩

end Definition

/-! ## A whole source -/

namespace Grammar

/-- Derivations of the same tokens settle to the same derivation. -/
theorem parts_settle_eq (parts parts' : List Part) {eof eof' : Location}
    (h : parts.flatMap Part.tokens ++ [eof.token .eof] = parts'.flatMap Part.tokens ++ [eof'.token .eof]) :
    parts.map Part.settle = parts'.map Part.settle ∧ eof = eof' := by
  induction parts generalizing parts' with
  | nil =>
    cases parts' with
    | nil =>
      obtain ⟨heof, -⟩ := List.cons.inj h
      exact ⟨rfl, (token_inj.mp heof).1⟩
    | cons part' parts' => cases part' <;> cases h
  | cons part parts ih =>
    cases parts' with
    | nil => cases part <;> cases h
    | cons part' parts' =>
      rw [List.flatMap_cons, List.flatMap_cons, List.append_assoc, List.append_assoc] at h
      cases part with
      | comment c =>
        cases part' with
        | comment c' =>
          obtain ⟨hcomment, hmore⟩ := List.cons.inj h
          obtain ⟨hparts, rfl⟩ := ih parts' hmore
          rw [Comment.token_injective hcomment, List.map_cons, List.map_cons, hparts]
          exact ⟨rfl, rfl⟩
        | definition d' => cases h
      | definition d =>
        cases part' with
        | comment c' => cases h
        | definition d' =>
          obtain ⟨place, keyword, hkeyword, namePlace, name, block⟩ := d
          obtain ⟨place', keyword', hkeyword', namePlace', name', block'⟩ := d'
          simp only [Part.tokens, Def.tokens, List.cons_append, List.cons.injEq, token_inj,
            TokenKind.ident.injEq] at h
          obtain ⟨⟨rfl, rfl⟩, ⟨rfl, rfl⟩, hmore⟩ := h
          obtain ⟨hblock, hmore⟩ := Block.settle_eq block block' hmore
          obtain ⟨hparts, rfl⟩ := ih parts' hmore
          rw [List.map_cons, List.map_cons, hparts, Part.settle, Part.settle, hblock]
          exact ⟨rfl, rfl⟩

theorem Source.settle_eq {source source' : Grammar.Source} (h : source.tokens = source'.tokens) :
    source.settle = source'.settle := by
  obtain ⟨parts, eof⟩ := source
  obtain ⟨parts', eof'⟩ := source'
  obtain ⟨hparts, rfl⟩ := parts_settle_eq parts parts' h
  rw [Source.settle, Source.settle, hparts]

/-- Settling moves no token. -/
theorem Source.tokens_settle (source : Grammar.Source) : source.settle.tokens = source.tokens := by
  obtain ⟨parts, eof⟩ := source
  have hpart : ∀ part : Part, part.settle.tokens = part.tokens := by
    intro part
    cases part with
    | comment c => rfl
    | definition d => rw [Part.settle, Part.tokens, Part.tokens, Def.tokens, Def.tokens, Block.tokens_settle]
  rw [Source.tokens, Source.tokens, Source.settle, List.flatMap_map]
  simp only [hpart]

end Grammar

/-- **Exactly the grammar is read.** The definitions of a source can be read if and only if its tokens have a
    derivation; they are the ones that any of its derivations stands for, and there is only one derivation once
    the comments behind the parenthesis of a call are given to the call. -/
theorem definitions_exact (scope : CallScope) (inner : List Token) (eof : Location)
    (hinner : ∀ token ∈ inner, token.kind ≠ .eof) :
    ((∃ defs, definitions scope (inner ++ [eof.token .eof]) = .ok defs) ↔
      ∃ source : Grammar.Source, source.tokens = inner ++ [eof.token .eof]) ∧
    ∀ source : Grammar.Source, source.tokens = inner ++ [eof.token .eof] →
      definitions scope (inner ++ [eof.token .eof]) = .ok (source.definitions scope) ∧
      ∀ other : Grammar.Source, other.tokens = inner ++ [eof.token .eof] → other.settle = source.settle := by
  have hcomplete : ∀ source : Grammar.Source, source.tokens = inner ++ [eof.token .eof] →
      definitions scope (inner ++ [eof.token .eof]) = .ok (source.definitions scope) := by
    rintro ⟨parts, eof'⟩ hsource
    have hread := Definition.allDefinitions_complete scope parts eof' _ (Nat.lt_succ_self _)
    rw [← hsource, definitions, Grammar.Source.tokens, List.length_append, List.length_singleton, hread]
    rfl
  refine ⟨⟨?_, ?_⟩, ?_⟩
  · rintro ⟨defs, hdefs⟩
    rw [definitions, List.length_append, List.length_singleton] at hdefs
    cases hread : Definition.allDefinitions scope (inner.length + 1) (inner ++ [eof.token .eof]) with
    | ok found rest =>
      obtain ⟨parts, rfl, -⟩ := Definition.allDefinitions_sound (Nat.lt_succ_self _) hinner hread
      exact ⟨⟨parts, eof⟩, rfl⟩
    | error error rest =>
      rw [hread] at hdefs
      cases hdefs
  · rintro ⟨source, hsource⟩
    exact ⟨_, hcomplete source hsource⟩
  · intro source hsource
    refine ⟨hcomplete source hsource, fun other hother => ?_⟩
    exact Grammar.Source.settle_eq (hother.trans hsource.symm)

/-- The definition `DEF a` with the call `b(/*c*/ x: @y, x: "z")` as its block, all of it at one place. The
    argument of the call keeps the value that it is given last. -/
theorem definitions_exact_repeated :
    (∀ token ∈ [.ident "DEF", .ident "a", .lbrace, .ident "b", .lparen, .comment "c", .ident "x", .colon,
        .reference ⟨["y"], false⟩, .comma, .ident "x", .colon, .quote "z", .rparen, .rbrace].map
          (Location.token default), token.kind ≠ .eof) ∧
      definitions ⟨0, fun _ => false⟩ ([.ident "DEF", .ident "a", .lbrace, .ident "b", .lparen, .comment "c",
        .ident "x", .colon, .reference ⟨["y"], false⟩, .comma, .ident "x", .colon, .quote "z", .rparen,
        .rbrace].map (Location.token default) ++ [Location.token default .eof]) =
        .ok [⟨"a", default, .body default
          [.call default .external "b" [("x", .deferred default (.literal default "z"))]]⟩] := by
  have hinner : ∀ token ∈ [.ident "DEF", .ident "a", .lbrace, .ident "b", .lparen, .comment "c", .ident "x", .colon,
      .reference ⟨["y"], false⟩, .comma, .ident "x", .colon, .quote "z", .rparen, .rbrace].map
        (Location.token default), token.kind ≠ .eof := by
    simp
  let args : Grammar.Arguments :=
    .more (.mk [⟨default, "c"⟩] default "x" default (.reference default ⟨["y"], false⟩) []) default
      (.last (.mk [] default "x" default (.quote default "z") []) default)
  let d : Def :=
    ⟨default, "DEF", by decide +kernel, default, "a", .mk default [.call default "b" default [] args] default⟩
  have hread := ((definitions_exact ⟨0, fun _ => false⟩ _ default hinner).2 ⟨[.definition d], default⟩ rfl).1
  refine ⟨hinner, hread.trans ?_⟩
  decide +kernel

/-- A source with two derivations. Its comment is one of those behind the parenthesis of the call, or one of those in
    front of the name of the argument. -/
theorem not_unique_derivation :
    let code := "def a \x7b b(/*c*/ x: @y) \x7d"
    let place (column stop : Nat) : Location := ⟨0, ⟨⟨1, column⟩, ⟨1, stop⟩⟩⟩
    let tokens := [(place 1 4).token (.ident "def"), (place 5 6).token (.ident "a"), (place 7 8).token .lbrace,
      (place 9 10).token (.ident "b"), (place 10 11).token .lparen, (place 11 16).token (.comment "c"),
      (place 17 18).token (.ident "x"), (place 18 19).token .colon, (place 20 22).token (.reference ⟨["y"], false⟩),
      (place 22 23).token .rparen, (place 24 25).token .rbrace, (place 25 25).token .eof]
    tokenize code 0 = .ok tokens ∧
      definitions ⟨0, fun _ => false⟩ tokens = .ok [⟨"a", place 1 4, .body (place 7 8)
        [.call (place 9 10) .external "b" [("x", .reference (place 20 22) .passed ["y"])]]⟩] ∧
      ∃ source other : Grammar.Source, source.tokens = tokens ∧ other.tokens = tokens ∧ source ≠ other := by
  intro code place tokens
  let comment : Grammar.Comment := ⟨place 11 16, "c"⟩
  let source (ofCall ofArgument : List Grammar.Comment) : Grammar.Source :=
    ⟨[.definition ⟨place 1 4, "def", by decide +kernel, place 5 6, "a", .mk (place 7 8)
      [.call (place 9 10) "b" (place 10 11) ofCall (.last (.mk ofArgument (place 17 18) "x" (place 18 19)
        (.reference (place 20 22) ⟨["y"], false⟩) []) (place 22 23))] (place 24 25)⟩], place 25 25⟩
  have hsource : source [comment] [] ≠ source [] [comment] := by
    intro h
    cases h
  exact ⟨by decide +kernel, by decide +kernel, source [comment] [], source [] [comment], rfl, rfl, hsource⟩

end HtmlTemplate
