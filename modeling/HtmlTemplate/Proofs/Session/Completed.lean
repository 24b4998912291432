import HtmlTemplate.Proofs.Grammar.Exact
import HtmlTemplate.Proofs.Render.Calls
import HtmlTemplate.Proofs.Render.Flattened
import HtmlTemplate.Proofs.Session.Basic

/-!
# What compiling leaves behind

A compile defines the definitions that it completes, one after the other, whether it fails later on or not
(`Engine.compile_fst`). Where no tree is defined by hand, all trees of an engine come from definitions that
were completed by one of its compiles (`History.holds`), and the sources of all its compiles are kept under
their numbers (`History.source`).

## Contents

* `Engine.completed` — the definitions that a compile completes;
* `Engine.compile_fst` — the engine after a compile;
* `Engine.stored`, `Registry.Holds`, `Engine.holds_compile` — the trees that a compile stores;
* `Registry.Every`, `Registry.NoNatives` — what all entries of the tables have in common;
* `History.holds`, `History.source` — the trees and the sources of an engine.
-/

namespace HtmlTemplate

variable {σ : Type}

namespace Engine

/-! ## Completed definitions -/

/-- The definitions in front of the first error in a token list, each read against those before it. -/
def completedIn (file : Nat) : (bound : Nat) → Engine σ → List Token → List Definition
  | 0, _, _ => []
  | bound + 1, engine, tokens =>
    match Definition.nextDefinition ⟨file, engine.registry.isInternal⟩ tokens with
    | .ok (some definition) rest =>
      definition :: completedIn file bound (engine.define definition.name definition.body) rest
    | _ => []

/-- The engine with one more source. -/
def addSource (engine : Engine σ) (code fileName : String) : Engine σ :=
  { engine with sources := engine.sources.add ⟨fileName, code⟩ }

/-- The definitions that a compile completes. -/
def completed (engine : Engine σ) (code fileName : String) : List Definition :=
  let tokens := (scan code engine.sources.size).tokens
  completedIn engine.sources.size tokens.length (engine.addSource code fileName) tokens

/-- Defines some templates, one after the other. -/
def defineEach (engine : Engine σ) (definitions : List Definition) : Engine σ :=
  definitions.foldl (fun engine definition => engine.define definition.name definition.body) engine

theorem defineAll_fst (file : Nat) (bound : Nat) (engine : Engine σ) (tokens : List Token) :
    (defineAll file bound engine tokens).1 = engine.defineEach (completedIn file bound engine tokens) := by
  induction bound generalizing engine tokens with
  | zero => rfl
  | succ bound ih =>
    unfold defineAll completedIn
    cases Definition.nextDefinition ⟨file, engine.registry.isInternal⟩ tokens with
    | ok found rest =>
      cases found with
      | none => rfl
      | some definition => exact ih (engine.define definition.name definition.body) rest
    | error error rest => rfl

theorem compile_fst_eq_defineAll (engine : Engine σ) (code fileName : String) :
    (engine.compile code fileName).1 =
      (defineAll engine.sources.size (scan code engine.sources.size).tokens.length
        (engine.addSource code fileName) (scan code engine.sources.size).tokens).1 := by
  unfold compile
  dsimp only
  split <;> rfl

/-- **A compile adds its source and defines what it completes.** -/
theorem compile_fst (engine : Engine σ) (code fileName : String) :
    (engine.compile code fileName).1 =
      (engine.addSource code fileName).defineEach (engine.completed code fileName) := by
  rw [compile_fst_eq_defineAll, defineAll_fst]
  rfl

/-- A completed definition is a phrase of the source. -/
theorem exists_def_of_mem_completedIn {file bound : Nat} {engine : Engine σ} {tokens : List Token}
    {definition : Definition} (h : definition ∈ completedIn file bound engine tokens) :
    ∃ (scope : CallScope) (d : Grammar.Def), d.definition scope = definition ∧ d.tokens <:+: tokens := by
  induction bound generalizing engine tokens with
  | zero => cases h
  | succ bound ih =>
    unfold completedIn at h
    split at h
    · rename_i found rest hfound
      obtain ⟨comments, d, rfl, hd⟩ := Definition.nextDefinition_eq_some.mp hfound
      rcases List.mem_cons.mp h with rfl | hmore
      · exact ⟨_, d, hd, Grammar.commentTokens comments, rest, List.append_assoc _ _ _⟩
      · obtain ⟨scope, d', hd', hphrase⟩ := ih hmore
        have hrest : rest <:+: Grammar.commentTokens comments ++ (d.tokens ++ rest) :=
          ⟨Grammar.commentTokens comments ++ d.tokens, [], by simp⟩
        exact ⟨scope, d', hd', hphrase.trans hrest⟩
    · cases h

/-! ## What defining keeps -/

theorem defineEach_sources (engine : Engine σ) (definitions : List Definition) :
    (engine.defineEach definitions).sources = engine.sources := by
  induction definitions generalizing engine with
  | nil => rfl
  | cons definition definitions ih => exact ih _

theorem defineEach_resolver (engine : Engine σ) (definitions : List Definition) :
    (engine.defineEach definitions).resolver = engine.resolver := by
  induction definitions generalizing engine with
  | nil => rfl
  | cons definition definitions ih => exact ih _

theorem defineEach_optimize (engine : Engine σ) (definitions : List Definition) :
    (engine.defineEach definitions).optimize = engine.optimize := by
  induction definitions generalizing engine with
  | nil => rfl
  | cons definition definitions ih => exact ih _

/-- A compile leaves the settings of the engine alone. -/
theorem compile_resolver (engine : Engine σ) (code fileName : String) :
    (engine.compile code fileName).1.resolver = engine.resolver := by
  rw [compile_fst, defineEach_resolver]
  rfl

theorem compile_optimize (engine : Engine σ) (code fileName : String) :
    (engine.compile code fileName).1.optimize = engine.optimize := by
  rw [compile_fst, defineEach_optimize]
  rfl

/-- The tree that stands for a defined one. -/
def stored (engine : Engine σ) (tree : Node) : Node := if engine.optimize then tree.flatten else tree

end Engine

/-- The tables hold the tree of a template. -/
def Registry.Holds (registry : Registry σ) (name : String) (tree : Node) : Prop :=
  registry.internal? name = some tree ∨ registry.external? name = some (.compiled tree)

/-- What a call finds is held by the tables under the name of the call. -/
theorem Registry.holds_of_target? {registry : Registry σ} {target : Binding} {name : String} {tree : Node}
    (h : registry.target? target name = some (.compiled tree)) : registry.Holds name tree := by
  cases target with
  | internal =>
    obtain ⟨_, hinternal, hcompiled⟩ := Option.map_eq_some_iff.mp h
    cases hcompiled
    exact .inl hinternal
  | external => exact .inr h

namespace Registry

/-- All trees of the tables are such. -/
def Every (registry : Registry σ) (P : Node → Prop) : Prop := ∀ name tree, registry.Holds name tree → P tree

/-- No name stands for a function of the host. -/
def NoNatives (registry : Registry σ) : Prop := ∀ name function, registry.external? name ≠ some (.native function)

theorem every_empty (P : Node → Prop) : (empty : Registry σ).Every P := by
  intro name tree h
  simp [Holds] at h

theorem noNatives_empty : (empty : Registry σ).NoNatives := by
  intro name function h
  simp at h

/-- Defining a tree that is as all the others are keeps them so. -/
theorem Every.define {registry : Registry σ} {P : Node → Prop} (h : registry.Every P) (name : String) {tree : Node}
    (htree : P tree) : (registry.define name tree).Every P := by
  intro other found hfound
  unfold Holds at hfound
  rw [internal?_define, external?_define] at hfound
  by_cases hname : name = other
  · rw [if_pos hname, if_pos hname] at hfound
    obtain rfl : tree = found := by simpa using hfound
    exact htree
  · rw [if_neg hname, if_neg hname] at hfound
    exact h other found hfound

/-- A function of the host only hides a tree. -/
theorem Every.register {registry : Registry σ} {P : Node → Prop} (h : registry.Every P) (name : String)
    (function : Native σ) : (registry.register name function).Every P := by
  intro other found hfound
  unfold Holds at hfound
  rw [internal?_register, external?_register] at hfound
  apply h other found
  by_cases hname : name = other
  · rw [if_pos hname] at hfound
    left
    simpa using hfound
  · rw [if_neg hname] at hfound
    exact hfound

theorem NoNatives.define {registry : Registry σ} (h : registry.NoNatives) (name : String) (tree : Node) :
    (registry.define name tree).NoNatives := by
  intro other function hfound
  rw [external?_define] at hfound
  by_cases hname : name = other
  · rw [if_pos hname] at hfound
    cases hfound
  · rw [if_neg hname] at hfound
    exact h other function hfound

end Registry

namespace Engine

theorem holds_define {engine : Engine σ} {name other : String} {tree found : Node}
    (h : (engine.define name tree).registry.Holds other found) :
    name = other ∧ found = engine.stored tree ∨ name ≠ other ∧ engine.registry.Holds other found := by
  unfold Registry.Holds define at h
  rw [Registry.internal?_define, Registry.external?_define] at h
  by_cases hname : name = other
  · rw [if_pos hname, if_pos hname] at h
    left
    refine ⟨hname, ?_⟩
    rcases h with h | h
    · exact (Option.some.inj h).symm
    · cases h
      rfl
  · rw [if_neg hname, if_neg hname] at h
    exact .inr ⟨hname, h⟩

theorem holds_defineEach {engine : Engine σ} {definitions : List Definition} {name : String} {tree : Node}
    (h : (engine.defineEach definitions).registry.Holds name tree) :
    (∃ definition ∈ definitions, definition.name = name ∧ tree = engine.stored definition.body) ∨
      engine.registry.Holds name tree := by
  induction definitions generalizing engine with
  | nil => exact .inr h
  | cons definition definitions ih =>
    rcases ih h with ⟨found, hmem, hname, htree⟩ | hbefore
    · exact .inl ⟨found, List.mem_cons_of_mem _ hmem, hname, htree⟩
    · rcases holds_define hbefore with ⟨hname, htree⟩ | ⟨-, hbefore⟩
      · exact .inl ⟨definition, List.mem_cons_self, hname, htree⟩
      · exact .inr hbefore

theorem holds_compile {engine : Engine σ} {code fileName name : String} {tree : Node}
    (h : (engine.compile code fileName).1.registry.Holds name tree) :
    (∃ definition ∈ engine.completed code fileName,
        definition.name = name ∧ tree = engine.stored definition.body) ∨ engine.registry.Holds name tree := by
  rw [compile_fst] at h
  have hadded := holds_defineEach h
  exact hadded

theorem holds_register {engine : Engine σ} {name other : String} {function : Native σ} {tree : Node}
    (h : (engine.register name function).registry.Holds other tree) : engine.registry.Holds other tree := by
  unfold Registry.Holds register at h
  rw [Registry.internal?_register, Registry.external?_register] at h
  rcases h with h | h
  · exact .inl h
  · by_cases hname : name = other
    · rw [if_pos hname] at h
      cases h
    · rw [if_neg hname] at h
      exact .inr h

end Engine

/-! ## Histories -/

/-- A tree is defined by hand. -/
def Edit.isDefine : Edit σ → Bool
  | .define _ _ => true
  | _ => false

namespace History

/-- **Without trees defined by hand, every tree of an engine was completed by one of its compiles.** -/
theorem holds {optimize : Bool} {edits : List (Edit σ)} (hedits : ∀ edit ∈ edits, edit.isDefine = false)
    {name : String} {tree : Node} (h : (⟨optimize, edits⟩ : History σ).engine.registry.Holds name tree) :
    ∃ before code fileName after, edits = before ++ .compile code fileName :: after ∧
      ∃ definition ∈ (⟨optimize, before⟩ : History σ).engine.completed code fileName,
        definition.name = name ∧ tree = (⟨optimize, before⟩ : History σ).engine.stored definition.body := by
  induction edits using List.reverseRecOn with
  | nil =>
    rcases h with h | h
    · simp [Engine.new] at h
    · simp [Engine.new] at h
  | append_singleton edits edit ih =>
    have hbefore : (⟨optimize, edits⟩ : History σ).engine.registry.Holds name tree →
        ∃ before code fileName after, edits ++ [edit] = before ++ .compile code fileName :: after ∧
          ∃ definition ∈ (⟨optimize, before⟩ : History σ).engine.completed code fileName,
            definition.name = name ∧ tree = (⟨optimize, before⟩ : History σ).engine.stored definition.body := by
      intro hholds
      obtain ⟨before, code, fileName, after, rfl, hfound⟩ :=
        ih (fun edit hedit => hedits edit (List.mem_append_left _ hedit)) hholds
      exact ⟨before, code, fileName, after ++ [edit], by simp, hfound⟩
    have hlast := hedits edit (List.mem_append_right _ (List.mem_singleton_self edit))
    rw [show (⟨optimize, edits ++ [edit]⟩ : History σ) = (⟨optimize, edits⟩ : History σ).extend edit from rfl,
      engine_extend] at h
    cases edit with
    | compile code fileName =>
      rcases Engine.holds_compile h with hfound | hholds
      · exact ⟨edits, code, fileName, [], rfl, hfound⟩
      · exact hbefore hholds
    | define name tree => cases hlast
    | register name function => exact hbefore (Engine.holds_register h)
    | setResolver resolver | setOptimize optimize => exact hbefore h

/-- An edit keeps the sources there are. -/
theorem perform_source {engine : Engine σ} {file : Nat} {source : Source} (h : engine.sources.get? file = some source)
    (edit : Edit σ) : (engine.perform edit).1.sources.get? file = some source := by
  cases edit with
  | compile code fileName =>
    show (engine.compile code fileName).1.sources.get? file = some source
    rw [Engine.compile_fst, Engine.defineEach_sources, Engine.addSource]
    have hlt : file < engine.sources.size := (List.getElem?_eq_some_iff.mp h).1
    rw [Sources.get?_add_of_lt hlt, h]
  | define name tree | register name function | setResolver resolver | setOptimize optimize => exact h

/-- **The source of a compile is kept** under the number that it had then. -/
theorem source (optimize : Bool) (before : List (Edit σ)) (code fileName : String) (after : List (Edit σ)) :
    (⟨optimize, before ++ .compile code fileName :: after⟩ : History σ).engine.sources.get?
      (⟨optimize, before⟩ : History σ).engine.sources.size = some ⟨fileName, code⟩ := by
  induction after using List.reverseRecOn with
  | nil =>
    rw [show (⟨optimize, before ++ [.compile code fileName]⟩ : History σ) =
      (⟨optimize, before⟩ : History σ).extend (.compile code fileName) from rfl, engine_extend]
    show (Engine.compile _ code fileName).1.sources.get? _ = _
    rw [Engine.compile_fst, Engine.defineEach_sources, Engine.addSource, Sources.get?_add_self]
  | append_singleton after edit ih =>
    rw [show (⟨optimize, before ++ .compile code fileName :: (after ++ [edit])⟩ : History σ) =
      (⟨optimize, before ++ .compile code fileName :: after⟩ : History σ).extend edit by
        simp [extend], engine_extend]
    exact perform_source ih edit

end History

end HtmlTemplate
