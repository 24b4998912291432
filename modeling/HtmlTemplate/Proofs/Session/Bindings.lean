import HtmlTemplate.Proofs.Alike.Readers
import HtmlTemplate.Proofs.Blame.Diagnosis
import HtmlTemplate.Proofs.Session.LastWrite

/-!
# Calls are bound by the order of definitions

A call looks into the internal table exactly if a template of its name had been completed when the definition around it
was read. What has been completed on an engine is kept as a log. One more definition is read against the names of this
log (`Registry.Follows.define`), compiles only add definitions to it, and nothing else that is done to an engine writes
trees. No name ever leaves the internal table, so an internal call always finds its target.

## Contents

* `Node.BoundTo` — trees whose calls are bound by the names of some definitions;
* `Definition.boundTo_of_isInternal` — a definition is bound to what is known when it is read;
* `IsCurrent`, `Registry.Follows` — the trees of the tables, told by the log;
* `History.completed`, `History.follows` — the log of an engine, and what its tables have of it;
* `run_calls_bound` — the main statement, about the engines of any session.
-/

namespace HtmlTemplate

variable {σ : Type}

/-! ## The calls of one definition -/

namespace Node.Alike

variable {place : Location → Location → Prop} {binding : String → Binding → Binding → Prop}

mutual

/-- A call of one tree stands for a call of the other. -/
theorem exists_of_mem_calls {site : CallSite} : ∀ {node node' : Node}, node.Alike place binding node' →
    site ∈ node.calls → ∃ target, binding site.name site.target target
  | _, _, .literal _ _, h | _, _, .reference _ _ _, h => nomatch h
  | _, _, .deferred _ hinner, h => exists_of_mem_calls hinner h
  | _, _, .call _ _ hbinding hargs, h => by
    rcases List.mem_cons.mp h with rfl | hmem
    · exact ⟨_, hbinding⟩
    · exact exists_of_mem_callsArgs hargs hmem
  | _, _, .body _ hchildren, h => exists_of_mem_callsAll hchildren h

theorem exists_of_mem_callsAll {site : CallSite} : ∀ {nodes nodes' : List Node},
    List.Forall₂ (Node.Alike place binding) nodes nodes' → site ∈ callsAll nodes →
      ∃ target, binding site.name site.target target
  | _, _, .nil, h => nomatch h
  | _, _, .cons hnode hnodes, h => by
    rcases List.mem_append.mp h with hmem | hmem
    · exact exists_of_mem_calls hnode hmem
    · exact exists_of_mem_callsAll hnodes hmem

theorem exists_of_mem_callsArgs {site : CallSite} : ∀ {args args' : List (String × Node)},
    List.Forall₂ (ArgAlike place binding) args args' → site ∈ callsArgs args →
      ∃ target, binding site.name site.target target
  | _, _, .nil, h => nomatch h
  | _, _, .cons (.arg _ hvalue) hargs, h => by
    rcases List.mem_append.mp h with hmem | hmem
    · exact exists_of_mem_calls hvalue hmem
    · exact exists_of_mem_callsArgs hargs hmem

end

end Node.Alike

/-- The calls of the tree look into the internal table exactly for the names of some definitions. -/
def Node.BoundTo (tree : Node) (definitions : List Definition) : Prop :=
  ∀ site ∈ tree.calls, site.target = .internal ↔ ∃ definition ∈ definitions, definition.name = site.name

/-- The bindings that calls get from a scope. -/
def CallScope.Binds (scope : CallScope) (name : String) (target _target' : Binding) : Prop :=
  target = scope.binding name

/-- **A definition is bound by the scope that it is read in.** It is read in step with itself, and what both readings
    know about the templates that can be called is this scope. -/
theorem Definition.nextDefinition_binds {scope : CallScope} {tokens rest : List Token} {definition : Definition}
    (h : nextDefinition scope tokens = .ok (some definition) rest) :
    definition.body.Alike (fun _ _ => True) scope.Binds definition.body := by
  have hscope : ScopesAlike scope.Binds scope scope := fun _ => rfl
  have htokens : List.Forall₂ (Token.Alike fun _ _ => True) tokens tokens :=
    List.forall₂_same.mpr fun token _ => Token.alike_of_range (fun _ => trivial) token.kind token.range
  have hread := nextDefinition_alike hscope tokens tokens htokens
  rw [h] at hread
  cases hread with
  | ok hfound _ =>
    cases hfound with
    | some hdefinition => exact hdefinition.body

/-- What is bound by a scope is bound to the definitions that this scope knows. -/
theorem Node.Alike.boundTo {place : Location → Location → Prop} {scope : CallScope} {tree tree' : Node}
    (h : tree.Alike place scope.Binds tree') {log : List Definition}
    (hlog : ∀ name, scope.isInternal name = true ↔ ∃ definition ∈ log, definition.name = name) : tree.BoundTo log := by
  intro site hsite
  obtain ⟨_, htarget⟩ := h.exists_of_mem_calls hsite
  rw [htarget, CallScope.binding, ← hlog]
  cases scope.isInternal site.name <;> simp

/-! ## The tables, told by a log -/

/-- The tree is that of the last definition of a name in a log, as it was read or flattened, and its calls are bound to
    the definitions before this one. -/
def IsCurrent (log : List Definition) (name : String) (tree : Node) : Prop :=
  ∃ before definition after, log = before ++ definition :: after ∧ definition.name = name ∧
    (∀ later ∈ after, later.name ≠ name) ∧ (tree = definition.body ∨ tree = definition.body.flatten) ∧
    tree.BoundTo before

/-- The tables of an engine, told by what was completed on it. -/
structure Registry.Follows (registry : Registry σ) (log : List Definition) : Prop where
  internal : ∀ name, registry.isInternal name = true ↔ ∃ definition ∈ log, definition.name = name
  current : ∀ name tree, registry.Holds name tree → IsCurrent log name tree

/-- A definition of another name makes no tree outdated. -/
theorem IsCurrent.append {log : List Definition} {name : String} {tree : Node} (h : IsCurrent log name tree)
    {definition : Definition} (hname : definition.name ≠ name) : IsCurrent (log ++ [definition]) name tree := by
  obtain ⟨before, found, after, rfl, hfound, hafter, htree, hbound⟩ := h
  refine ⟨before, found, after ++ [definition], by simp, hfound, ?_, htree, hbound⟩
  intro later hlater
  rcases List.mem_append.mp hlater with hmem | hlast
  · exact hafter later hmem
  · rwa [List.mem_singleton.mp hlast]

namespace Registry.Follows

variable {registry : Registry σ} {log : List Definition}

theorem empty : (Registry.empty : Registry σ).Follows [] where
  internal name := by simp [isInternal]
  current name tree h := (every_empty (fun _ => False) name tree h).elim

/-- **One more definition**, read against the internal names. -/
theorem define {engine : Engine σ} (h : engine.registry.Follows log) {file : Nat} {tokens rest : List Token}
    {definition : Definition}
    (hread : Definition.nextDefinition ⟨file, engine.registry.isInternal⟩ tokens = .ok (some definition) rest) :
    (engine.define definition.name definition.body).registry.Follows (log ++ [definition]) where
  internal name := by
    show ((engine.registry.define definition.name _).internal? name).isSome = true ↔ _
    rw [internal?_define]
    have hold := h.internal name
    unfold isInternal at hold
    by_cases hname : definition.name = name
    · simp [hname]
    · simp [hname, hold]
  current name tree hholds := by
    rcases Engine.holds_define hholds with ⟨hname, htree⟩ | ⟨hname, hholds⟩
    · have hbinds := Definition.nextDefinition_binds hread
      refine ⟨log, definition, [], rfl, hname, nofun, ?_⟩
      unfold Engine.stored at htree
      split at htree
      · exact ⟨.inr htree, htree ▸ hbinds.flatten.boundTo h.internal⟩
      · exact ⟨.inl htree, htree ▸ hbinds.boundTo h.internal⟩
    · exact (h.current name tree hholds).append hname

/-- **All definitions of a token list**, each read against those before it. -/
theorem defineEach (file bound : Nat) {engine : Engine σ} (h : engine.registry.Follows log) (tokens : List Token) :
    (engine.defineEach (Engine.completedIn file bound engine tokens)).registry.Follows
      (log ++ Engine.completedIn file bound engine tokens) := by
  induction bound generalizing engine tokens log with
  | zero =>
    rw [Engine.completedIn, List.append_nil]
    exact h
  | succ bound ih =>
    rw [Engine.completedIn]
    split
    · rename_i definition rest hread
      have hmore := ih (h.define hread) rest
      rw [List.append_assoc] at hmore
      exact hmore
    · rw [List.append_nil]
      exact h

/-- A function of the host hides a tree, and changes no internal name. -/
theorem register {engine : Engine σ} (h : engine.registry.Follows log) (name : String) (function : Native σ) :
    (engine.register name function).registry.Follows log where
  internal := h.internal
  current other tree hholds := h.current other tree (Engine.holds_register hholds)

/-- **Internal calls find a tree.** -/
theorem isInternal (h : registry.Follows log) {name : String} {tree : Node} (hholds : registry.Holds name tree)
    {site : CallSite} (hsite : site ∈ tree.calls) (htarget : site.target = .internal) :
    registry.isInternal site.name = true := by
  obtain ⟨before, definition, after, rfl, -, -, -, hbound⟩ := h.current name tree hholds
  obtain ⟨earlier, hearlier, hname⟩ := (hbound site hsite).mp htarget
  exact (h.internal site.name).mpr ⟨earlier, List.mem_append_left _ hearlier, hname⟩

/-- **Only an external call misses its template**, and then no internal call has this name, if each internal name has an
    external entry too. -/
theorem external_of_misses (h : registry.Follows log)
    (hdefined : ∀ name, registry.isInternal name = true → registry.isDefined name = true) {place : Location}
    {name : String} (hmisses : registry.Misses (.notDefined place name)) :
    (∃ owner tree, registry.Holds owner tree ∧ ⟨place, .external, name⟩ ∈ tree.calls ∧
      registry.external? name = none) ∧
    ∀ owner tree, registry.Holds owner tree → ∀ site ∈ tree.calls, site.name = name → site.target = .external := by
  have hinternal : ∀ owner tree, registry.Holds owner tree → ∀ site ∈ tree.calls, site.target = .internal →
      registry.internal? site.name ≠ none ∧ registry.external? site.name ≠ none := by
    intro owner tree hholds site hsite htarget
    have hname := h.isInternal hholds hsite htarget
    exact ⟨Option.isSome_iff_ne_none.mp hname, Option.isSome_iff_ne_none.mp (hdefined _ hname)⟩
  obtain ⟨owner, tree, target, hholds, hsite, hnone⟩ := hmisses place name rfl
  cases target with
  | internal => exact absurd (Option.map_eq_none_iff.mp hnone) (hinternal owner tree hholds _ hsite rfl).1
  | external =>
    refine ⟨⟨owner, tree, hholds, hsite, hnone⟩, ?_⟩
    rintro owner' tree' hholds' site hsite' rfl
    cases htarget : site.target with
    | internal => exact absurd hnone (hinternal owner' tree' hholds' site hsite' htarget).2
    | external => rfl

end Registry.Follows

/-! ## The log of an engine -/

/-- What an edit completes. -/
def Engine.completes (engine : Engine σ) : Edit σ → List Definition
  | .compile code fileName => engine.completed code fileName
  | .define _ _ | .register _ _ | .setResolver _ | .setOptimize _ => []

theorem Registry.Follows.perform {engine : Engine σ} {log : List Definition} (h : engine.registry.Follows log)
    {edit : Edit σ} (hedit : edit.isDefine = false) :
    (engine.perform edit).1.registry.Follows (log ++ engine.completes edit) := by
  cases edit with
  | compile code fileName =>
    show (engine.compile code fileName).1.registry.Follows _
    have hadded : (engine.addSource code fileName).registry.Follows log := h
    rw [Engine.compile_fst]
    exact hadded.defineEach engine.sources.size _ _
  | define name tree => cases hedit
  | register name function =>
    rw [Engine.completes, List.append_nil]
    exact h.register name function
  | setResolver resolver | setOptimize optimize =>
    rw [Engine.completes, List.append_nil]
    exact h

namespace History

/-- All definitions that the compiles of a history have completed, in order. -/
def completed (history : History σ) : List Definition := history.log Engine.completes

/-- **The tables follow the definitions that were completed**, where no tree is defined by hand. -/
theorem follows {history : History σ} (hedits : ∀ edit ∈ history.edits, edit.isDefine = false) :
    history.engine.registry.Follows history.completed := by
  obtain ⟨optimize, edits⟩ := history
  induction edits using List.reverseRecOn with
  | nil => exact .empty
  | append_singleton edits edit ih =>
    have hextend : (⟨optimize, edits ++ [edit]⟩ : History σ) = (⟨optimize, edits⟩ : History σ).extend edit := rfl
    have hbefore := ih fun earlier hearlier => hedits earlier (List.mem_append_left [edit] hearlier)
    rw [hextend, completed, engine_extend, log_extend]
    exact hbefore.perform (hedits edit (List.mem_append_right _ (List.mem_singleton_self edit)))

end History

/-! ## Sessions -/

/-- **Calls are bound by the order of definitions, and internal calls never dangle.** Take an engine of any session
    without trees defined by hand, and the log of all that was completed on it, or on the engine that it was copied from
    before that. The internal names are those of the log. Each tree that the engine has is that of the last definition
    of its name, and each call in it is internal exactly if its name had been completed before this definition. An
    internal call names an internal template. So if a render fails because a template is not defined, then the failing
    call is an external one, of a name that no internal call of any tree has. -/
theorem run_calls_bound (host : σ) (operations : List (Operation σ))
    (hops : ∀ operation ∈ operations, operation.isDefine = false) {number : Nat} {engine : Engine σ}
    (hengine : ((Session.start host).run operations).engines[number]? = some engine) :
    ∃ history : History σ, (histories operations)[number]? = some history ∧
      (∀ name, engine.registry.isInternal name = true ↔
        ∃ definition ∈ history.completed, definition.name = name) ∧
      (∀ name tree, engine.registry.Holds name tree →
        ∃ before definition after, history.completed = before ++ definition :: after ∧ definition.name = name ∧
          (∀ later ∈ after, later.name ≠ name) ∧ (tree = definition.body ∨ tree = definition.body.flatten) ∧
          ∀ site ∈ tree.calls,
            site.target = .internal ↔ ∃ earlier ∈ before, earlier.name = site.name) ∧
      (∀ name tree, engine.registry.Holds name tree → ∀ site ∈ tree.calls, site.target = .internal →
        engine.registry.isInternal site.name = true) ∧
      ∀ diagnostic place name, engine.FailsWith diagnostic → diagnostic.cause = .render (.notDefined place name) →
        (∃ owner tree, engine.registry.Holds owner tree ∧ ⟨place, .external, name⟩ ∈ tree.calls ∧
          engine.registry.external? name = none) ∧
        ∀ owner tree, engine.registry.Holds owner tree → ∀ site ∈ tree.calls, site.name = name →
          site.target = .external := by
  rw [Session.run_engines, List.getElem?_map] at hengine
  obtain ⟨history, hhistory, rfl⟩ := Option.map_eq_some_iff.mp hengine
  have hfollows := History.follows (histories_isDefine hops _ (List.mem_of_getElem? hhistory))
  refine ⟨history, hhistory, hfollows.internal, hfollows.current, fun _ _ hholds _ => hfollows.isInternal hholds, ?_⟩
  intro diagnostic place name hfails hcause
  apply hfollows.external_of_misses
  · exact fun _ => history.registry_lastWriterWins.isDefined
  · exact hfails.misses hcause

/-- A copy goes on by itself: its `a` is bound to what had been completed before the copy was made, the `a` of the
    failed compile included. What is missing is the argument of a call in the part that it has in common with the
    original. -/
theorem run_calls_bound_clone :
    ∃ engine : Engine Unit,
      ((Session.start ()).run [.new true,
        .edit 0 (.compile "def a \x7b b() \x7d def b \x7b a(x: \x7b late() \x7d) \x7d def" "one.tl"), .clone 0,
        .edit 1 (.compile "def a \x7b b(y: \x7b a() \x7d) \x7d" "two.tl")]).engines[1]? = some engine ∧
      (∃ tree, engine.registry.internal? "a" = some tree ∧
        tree.calls.map (fun site => (site.target, site.name)) = [(.internal, "b"), (.internal, "a")] ∧
        ∀ site ∈ tree.calls, engine.registry.isInternal site.name = true) ∧
      ∃ owner tree, engine.registry.Holds owner tree ∧
        ⟨⟨0, ⟨⟨1, 30⟩, ⟨1, 34⟩⟩⟩, .external, "late"⟩ ∈ tree.calls ∧ engine.registry.external? "late" = none := by
  let one : Edit Unit := .compile "def a \x7b b() \x7d def b \x7b a(x: \x7b late() \x7d) \x7d def" "one.tl"
  let two : Edit Unit := .compile "def a \x7b b(y: \x7b a() \x7d) \x7d" "two.tl"
  have hengine : ((Session.start ()).run [.new true, .edit 0 one, .clone 0, .edit 1 two]).engines[1]? =
    some (History.engine ⟨true, [one, two]⟩) := rfl
  have htree : (History.engine ⟨true, [one, two]⟩).registry.internal? "a" = some (.body ⟨1, ⟨⟨1, 7⟩, ⟨1, 8⟩⟩⟩
      [.call ⟨1, ⟨⟨1, 9⟩, ⟨1, 10⟩⟩⟩ .internal "b"
        [("y", .deferred ⟨1, ⟨⟨1, 14⟩, ⟨1, 15⟩⟩⟩ (.body ⟨1, ⟨⟨1, 14⟩, ⟨1, 15⟩⟩⟩
        [.call ⟨1, ⟨⟨1, 16⟩, ⟨1, 17⟩⟩⟩ .internal "a" []]))]]) := by
    cbv
  have hrender : ∃ diagnostic, ((History.engine ⟨true, [one, two]⟩).render 5 "b" (.ofEntries []) ()).1 =
      .error (.error diagnostic) ∧ diagnostic.cause = .render (.notDefined ⟨0, ⟨⟨1, 30⟩, ⟨1, 34⟩⟩⟩ "late") :=
    ⟨⟨.render (.notDefined ⟨0, ⟨⟨1, 30⟩, ⟨1, 34⟩⟩⟩ "late"), some "one.tl",
      "def a \x7b b() \x7d def b \x7b a(x: \x7b late() \x7d) \x7d def", ⟨29, 4⟩, some ⟨1, 30⟩⟩, by cbv, rfl⟩
  obtain ⟨diagnostic, hrender, hcause⟩ := hrender
  obtain ⟨-, -, -, -, hinternal, hmissed⟩ :=
    run_calls_bound () _ (by simp [Operation.isDefine, Edit.isDefine, one, two]) hengine
  refine ⟨_, hengine, ⟨_, htree, rfl, ?_⟩, (hmissed _ _ _ (.inr ⟨_, _, _, _, hrender⟩) hcause).1⟩
  intro site hsite
  refine hinternal "a" _ (.inl htree) site hsite ?_
  revert site
  decide

end HtmlTemplate
