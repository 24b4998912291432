import HtmlTemplate.Proofs.Grammar.Closed
import HtmlTemplate.Proofs.Tree.WellFormed

/-!
# Compiled trees

A tree is compiled from a source if a definition with this tree is read from tokens of the source, or if it is made from
such a tree by flattening. What is known about the tokens of a source is all that is needed to see that compiled trees
are well formed: this is kept when a tree is put together (`Grammar.Closed`), and the names of arguments are distinct
because each of them is kept once.

## Contents

* `Token.IsOf` — what the tokens of a source have in common;
* `Grammar.closed_built` — the trees of phrases are well formed;
* `Definition.Returned`, `Definition.returned_iff` — the definitions that are read from some tokens;
* `Node.IsCompiled`, `Node.IsCompiled.built` — compiled trees.
-/

namespace HtmlTemplate

open Node (Built)

/-! ## Tokens -/

/-- The token can be one of the source number `file`. -/
structure Token.IsOf (file : Nat) (token : Token) : Prop where
  inFile : token.file = file
  paths : ∀ path ∈ token.kind.paths, path.IsProper

theorem isOf_of_mem_scan {code : String} {file : Nat} {token : Token} (h : token ∈ (scan code file).tokens) :
    token.IsOf file := ⟨file_of_mem_scan h, isProper_of_mem_scan h⟩

theorem Token.Refers.file_eq {token : Token} {location : Location} {ref : Reference} (h : token.Refers location ref) :
    location.file = token.file := by
  cases h <;> rfl

theorem Token.Refers.mem_paths {token : Token} {location : Location} {ref : Reference} (h : token.Refers location ref) :
    ref.path ∈ token.kind.paths := by
  cases h with
  | reference => exact List.mem_cons_self
  | segment _ hsegment => exact List.mem_filterMap.mpr ⟨_, hsegment, rfl⟩

/-! ## Phrases -/

/-- A call looks where its name says. -/
theorem CallScope.binding_eq_internal_iff (scope : CallScope) (name : String) :
    scope.binding name = .internal ↔ scope.isInternal name = true := by
  unfold binding
  split
  · rename_i h
    exact ⟨fun _ => h, fun _ => rfl⟩
  · rename_i h
    exact ⟨nofun, fun hinternal => absurd hinternal h⟩

namespace Grammar

/-- Well-formed trees are put together from tokens of the source. -/
theorem closed_built (scope : CallScope) (file : Nat) :
    Closed scope (Token.IsOf file) (Built scope.isInternal file) where
  literal htoken _ := .literal htoken.inFile
  emitted htoken _ _ hrefers _ hmode :=
    .emitted (hrefers.file_eq.trans htoken.inFile) hmode (htoken.paths _ hrefers.mem_paths)
  passed htoken _ _ hrefers := .passed (hrefers.file_eq.trans htoken.inFile) (htoken.paths _ hrefers.mem_paths)
  deferred htoken _ _ hinner := .deferred htoken.inFile hinner
  call htoken _ hnames _ hargs := .call htoken.inFile (scope.binding_eq_internal_iff _) hnames hargs
  body htoken _ _ hchildren := .body htoken.inFile hchildren

end Grammar

/-! ## Definitions -/

namespace Definition

variable {scope : CallScope} {tokens : List Token} {definition : Definition}

/-- The definition is read from the tokens: alone, as the next one wherever reading is taken up, or with all others. -/
inductive Returned (scope : CallScope) (tokens : List Token) (definition : Definition) : Prop where
  | next {rest left : List Token} (hrest : rest <:+ tokens)
    (h : nextDefinition scope rest = .ok (some definition) left)
  | all {definitions : List Definition} (h : HtmlTemplate.definitions scope tokens = .ok definitions)
    (hmem : definition ∈ definitions)

/-- Each of all definitions is the next one somewhere. -/
theorem exists_next_of_mem_allDefinitions {bound : Nat} {definitions : List Definition} {left : List Token}
    (h : allDefinitions scope bound tokens = .ok definitions left) (hmem : definition ∈ definitions) :
    ∃ rest left, rest <:+ tokens ∧ nextDefinition scope rest = .ok (some definition) left := by
  induction bound generalizing tokens definitions left with
  | zero =>
    obtain ⟨rfl, -⟩ := TokenReader.pure_eq_ok.mp h
    cases hmem
  | succ bound ih =>
    rw [allDefinitions, TokenReader.bind_eq_ok] at h
    obtain ⟨found, behind, hfound, h⟩ := h
    cases found with
    | none =>
      obtain ⟨rfl, -⟩ := TokenReader.pure_eq_ok.mp h
      cases hmem
    | some first =>
      obtain ⟨more, _, hmore, hall⟩ := TokenReader.bind_eq_ok.mp h
      obtain ⟨rfl, -⟩ := TokenReader.pure_eq_ok.mp hall
      rcases List.mem_cons.mp hmem with rfl | hmem
      · exact ⟨tokens, behind, List.suffix_rfl, hfound⟩
      · obtain ⟨rest, left, hrest, hnext⟩ := ih hmore hmem
        obtain ⟨comments, d, rfl, -⟩ := nextDefinition_eq_some.mp hfound
        have hbehind : behind <:+ Grammar.commentTokens comments ++ (d.tokens ++ behind) :=
          (List.suffix_append _ _).trans (List.suffix_append _ _)
        exact ⟨rest, left, hrest.trans hbehind, hnext⟩

/-- **What is read from some tokens** are the definitions whose phrases stand there. -/
theorem returned_iff :
    Returned scope tokens definition ↔ ∃ d : Grammar.Def, d.tokens <:+: tokens ∧ d.definition scope = definition := by
  constructor
  · intro h
    have hnext : ∃ rest left, rest <:+ tokens ∧ nextDefinition scope rest = .ok (some definition) left := by
      cases h with
      | next hrest h => exact ⟨_, _, hrest, h⟩
      | all h hmem =>
        unfold HtmlTemplate.definitions at h
        cases hread : allDefinitions scope tokens.length tokens with
        | error error rest =>
          rw [hread] at h
          cases h
        | ok all rest =>
          rw [hread] at h
          cases h
          exact exists_next_of_mem_allDefinitions hread hmem
    obtain ⟨rest, left, hrest, hfound⟩ := hnext
    obtain ⟨comments, d, rfl, hd⟩ := nextDefinition_eq_some.mp hfound
    have hphrase : d.tokens <:+: Grammar.commentTokens comments ++ (d.tokens ++ left) :=
      ⟨Grammar.commentTokens comments, left, List.append_assoc ..⟩
    exact ⟨d, hphrase.trans hrest.isInfix, hd⟩
  · rintro ⟨d, ⟨front, back, rfl⟩, rfl⟩
    have hnext : nextDefinition scope (d.tokens ++ back) = .ok (some (d.definition scope)) back :=
      nextDefinition_eq_some.mpr ⟨[], d, rfl, rfl⟩
    have hrest : d.tokens ++ back <:+ front ++ d.tokens ++ back := by
      rw [List.append_assoc]
      exact List.suffix_append _ _
    exact .next hrest hnext

end Definition

/-! ## Compiled trees -/

/-- The tree is that of a definition that is read from the front part of the tokens of a source, or is made from such a
tree by flattening. -/
inductive Node.IsCompiled (isInternal : String → Bool) (file : Nat) : Node → Prop where
  | read {code : String} {tokens : List Token} {scope : CallScope} {definition : Definition}
    (htokens : tokens <+: (scan code file).tokens) (hscope : scope.isInternal = isInternal)
    (h : definition.Returned scope tokens) : IsCompiled isInternal file definition.body
  | flattened {tree : Node} (h : IsCompiled isInternal file tree) : IsCompiled isInternal file tree.flatten

/-- **Compiled trees** can be built in place. -/
theorem Node.IsCompiled.built {isInternal : String → Bool} {file : Nat} {tree : Node}
    (h : tree.IsCompiled isInternal file) : Built isInternal file false tree := by
  induction h with
  | read htokens hscope h =>
    obtain ⟨d, hphrase, rfl⟩ := Definition.returned_iff.mp h
    rw [← hscope]
    exact (Grammar.closed_built _ file).definition fun token htoken =>
      isOf_of_mem_scan (htokens.subset (hphrase.subset htoken))
  | flattened _ ih => exact ih.flatten

end HtmlTemplate
