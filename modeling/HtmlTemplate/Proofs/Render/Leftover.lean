import HtmlTemplate.Engine
import HtmlTemplate.Proofs.Render.Appends
import HtmlTemplate.Proofs.Render.Calls

/-!
# What a failing render leaves behind

A render fails at one node, and a way leads down to it from the root of the template: to children of bodies, to deferred
trees, to arguments of calls, and to the trees that calls have found. Along the way some nodes have been rendered to the
end before the failing one was reached. Those that are children of bodies have written their texts, and these are left
behind as far as the way goes on in the buffer of the render. It leaves this buffer with the first step to a deferred
tree, to an argument, or to a tree that is called from outside, and what is written there is lost.

The way is told by a relation that follows the tree as the render does, with the failures of called trees as a parameter
(`Node.FailsAt`), and the bound on nested calls ties the knot (`Stage.FailsAt`). A render that fails has such a way
(`Stage.exists_failsAt`), and where there is one, the render fails and has written what is left along it
(`Stage.FailsAt.renderTree`).

## Contents

* `Action.Silent` — actions that write nothing;
* `Node.evaluate` — the value of one argument;
* `Descent`, `leftover`, `Breakdown` — the way to the failing node, and what is left along it;
* `Node.Finish`, `Node.FailsAt`, `Stage.FailsAt` — how a tree fails;
* `Stage.FailsAt.renderTree`, `Stage.exists_failsAt` — renders fail like this and in no other way;
* `Stage.FailsAt.located` — the error blames the node at the end of the way;
* `Engine.renderInto_leftover` — the main statement.
-/

namespace HtmlTemplate

variable {σ α β : Type}

/-! ## Actions -/

namespace Action

/-- The second action starts on an empty buffer as well, since it reads nothing of what was written before. -/
theorem Appends.bind_eq {action : Action σ α} {next : α → Action σ β} (hnext : ∀ value, (next value).Appends)
    {host host' : σ} {value : α} {text : String} (h : action ⟨"", host⟩ = (.ok value, ⟨text, host'⟩)) :
    (action >>= next) ⟨"", host⟩ = ((next value ⟨"", host'⟩).1,
      ⟨text ++ (next value ⟨"", host'⟩).2.written, (next value ⟨"", host'⟩).2.host⟩) := by
  rw [bind_apply, h]
  exact hnext value text host'

theorem bind_of_ok {action : Action σ α} {next : α → Action σ β} {output after : Output σ} {value : α}
    (h : action output = (.ok value, after)) : (action >>= next) output = next value after := by
  rw [bind_apply, h]

theorem bind_of_error {action : Action σ α} {next : α → Action σ β} {output after : Output σ}
    {reason : Halt RenderError} (h : action output = (.error reason, after)) : (action >>= next) output = (.error reason, after) := by
  rw [bind_apply, h]

/-- What has been written to a buffer of its own is gone when the action fails. -/
theorem privately_of_error {action : Action σ Unit} {host : σ} {reason : Halt RenderError} {after : Output σ}
    (h : action ⟨"", host⟩ = (.error reason, after)) (written : String) :
    action.privately ⟨written, host⟩ = (.error reason, ⟨written, after.host⟩) := by
  unfold Action.privately
  dsimp only
  rw [h]

/-- What is done with the text cannot fail, so it is the action on the buffer of its own that has. -/
theorem error_of_privately_bind {action : Action σ Unit} {next : String → Action σ β} {host : σ}
    {reason : Halt RenderError} (hnext : ∀ text output, ∃ value after, next text output = (.ok value, after))
    (h : ((action.privately >>= next) ⟨"", host⟩).1 = .error reason) : (action ⟨"", host⟩).1 = .error reason := by
  rcases haction : action ⟨"", host⟩ with ⟨reason' | ⟨⟩, after⟩
  · rw [bind_of_error (privately_of_error haction "")] at h
    exact congrArg Except.error (Except.error.inj h)
  · have hprivately : action.privately ⟨"", host⟩ = (.ok after.written, ⟨"", after.host⟩) := by
      unfold Action.privately
      dsimp only
      rw [haction]
    obtain ⟨value, after', hvalue⟩ := hnext after.written ⟨"", after.host⟩
    rw [bind_of_ok hprivately, hvalue] at h
    cases h

/-- Whether it ends or stops, the action writes nothing. -/
def Silent (action : Action σ α) : Prop := ∀ output, (action output).2.written = output.written

namespace Silent

theorem pure (value : α) : (Pure.pure value : Action σ α).Silent := fun _ => rfl

theorem halt (reason : Halt RenderError) : (Action.halt reason : Action σ α).Silent := fun _ => rfl

theorem privately (action : Action σ Unit) : action.privately.Silent := by
  intro output
  unfold Action.privately
  rcases action { output with written := "" } with ⟨_ | ⟨⟩, inner⟩ <;> rfl

theorem bind {action : Action σ α} {next : α → Action σ β} (h : action.Silent) (hnext : ∀ value, (next value).Silent) :
    (action >>= next).Silent := by
  intro output
  have hfirst := h output
  rw [bind_apply]
  generalize action output = first at hfirst
  rcases first with ⟨reason | value, after⟩
  · exact hfirst
  · exact (hnext value after).trans hfirst

theorem written_eq {action : Action σ α} (h : action.Silent) {host host' : σ} {written : String}
    {result : Except (Halt RenderError) α} (hrun : action ⟨"", host⟩ = (result, ⟨written, host'⟩)) : written = "" := by
  have hwritten := h ⟨"", host⟩
  rw [hrun] at hwritten
  exact hwritten

end Silent

end Action

open HtmlTemplate.Action (Appends Silent)

theorem Stage.valueOf_silent (stage : Stage σ) (location : Location) (path : Path) (environment : Environment) :
    (stage.valueOf location path environment).Silent := by
  unfold Stage.valueOf
  cases environment.resolve stage.resolver path with
  | ok value => exact .pure value
  | error segment => exact .halt _

/-! ## Arguments -/

namespace Node

variable {stage : Stage σ} {invoke : Node → Environment → Action σ Unit}

variable (stage invoke) in
/-- The value of one argument: that of a passed reference, or the text that any other tree is rendered to. -/
def evaluate : Node → Environment → Action σ Value
  | reference location .passed path, environment => stage.valueOf location path environment
  | node, environment => do
    return .string (← .privately (node.render stage invoke environment))

variable (stage) in
/-- The argument is a value that is passed on, and needs no text. -/
def PassesOn (node : Node) (environment : Environment) : Prop :=
  ∃ location path value, node = .reference location .passed path ∧ environment.resolve stage.resolver path = .ok value

/-- The values of arguments are found one after the other. -/
theorem collect_cons_eq (name : String) (node : Node) (args : List (String × Node)) (environment : Environment) :
    collect stage invoke ((name, node) :: args) environment =
      (do
        let value ← node.evaluate stage invoke environment
        return (name, value) :: (← collect stage invoke args environment)) := by
  obtain ⟨location, path, rfl⟩ | hne := node.passed_or_ne
  · rw [collect, evaluate]
  · rw [collect_cons stage invoke hne, evaluate, Action.bind_assoc]
    · rfl
    · exact hne

theorem collect_append (args more : List (String × Node)) (environment : Environment) :
    collect stage invoke (args ++ more) environment =
      (do
        let front ← collect stage invoke args environment
        return front ++ (← collect stage invoke more environment)) := by
  induction args with
  | nil =>
    funext output
    rw [List.nil_append, collect, Action.pure_bind, Action.bind_apply]
    rcases collect stage invoke more environment output with ⟨_ | _, _⟩ <;> rfl
  | cons arg args ih =>
    obtain ⟨name, node⟩ := arg
    rw [List.cons_append, collect_cons_eq, collect_cons_eq, ih]
    simp only [Action.bind_assoc, Action.pure_bind, List.cons_append]

theorem evaluate_silent (node : Node) (environment : Environment) :
    (node.evaluate stage invoke environment).Silent := by
  unfold evaluate
  split
  · exact stage.valueOf_silent _ _ _
  · exact (Silent.privately _).bind fun text => .pure _

theorem collect_silent (args : List (String × Node)) (environment : Environment) :
    (collect stage invoke args environment).Silent := by
  induction args with
  | nil => exact .pure []
  | cons arg args ih =>
    obtain ⟨name, node⟩ := arg
    rw [collect_cons_eq]
    apply (evaluate_silent node environment).bind
    intro value
    exact ih.bind fun layer => .pure _

end Node

/-! ## The way to a failure -/

/-- A step on the way down to the node that fails. -/
inductive Descent where
  /-- To a child of a body, behind those that have been rendered to these texts. -/
  | child (finished : List String)
  /-- To the tree in a deferred one. -/
  | deferred
  /-- To an argument of a call, behind as many others. -/
  | argument (index : Nat)
  /-- To the tree that a call has found. -/
  | callee (target : Binding)
deriving DecidableEq

namespace Descent

/-- Below the step, texts are written to the same buffer as above it. -/
def sharesBuffer : Descent → Bool
  | child _ | callee .internal => true
  | deferred | argument _ | callee .external => false

/-- The texts of the nodes that were finished before the step was taken. -/
def finished : Descent → List String
  | child texts => texts
  | deferred | argument _ | callee _ => []

end Descent

/-- What is left behind along a way: the texts that were finished before it leaves the buffer. -/
def leftover (way : List Descent) : String :=
  String.join ((way.takeWhile Descent.sharesBuffer).flatMap Descent.finished)

/-- How a render fails. -/
structure Breakdown (σ : Type) where
  /-- The way down to the node that fails. -/
  way : List Descent
  /-- The node that fails. -/
  node : Node
  /-- Why it fails. -/
  reason : Halt RenderError
  /-- The state in which the host is left. -/
  host : σ

namespace Breakdown

/-- The same failure, seen from one step further up. -/
def behind (step : Descent) (breakdown : Breakdown σ) : Breakdown σ :=
  { breakdown with way := step :: breakdown.way }

/-- How an action ends that fails like this and has started on an empty buffer. -/
def outcome (breakdown : Breakdown σ) : Except (Halt RenderError) α × Output σ :=
  (.error breakdown.reason, ⟨leftover breakdown.way, breakdown.host⟩)

theorem outcome_of_shares {step : Descent} (h : step.sharesBuffer = true) (breakdown : Breakdown σ) :
    ((breakdown.behind step).outcome : Except (Halt RenderError) α × Output σ) =
      (.error breakdown.reason, ⟨String.join step.finished ++ leftover breakdown.way, breakdown.host⟩) := by
  simp [outcome, behind, leftover, h]

theorem outcome_of_leaves {step : Descent} (h : step.sharesBuffer = false) (breakdown : Breakdown σ) :
    ((breakdown.behind step).outcome : Except (Halt RenderError) α × Output σ) =
      (.error breakdown.reason, ⟨"", breakdown.host⟩) := by
  simp [outcome, behind, leftover, h]

/-- If the reason is an error, then it stands at the failing node. -/
def Located (breakdown : Breakdown σ) : Prop :=
  ∀ error, breakdown.reason = .error error → error.location = some breakdown.node.location

end Breakdown

/-! ## How a tree fails -/

namespace Node

section

variable (stage : Stage σ) (invoke : Node → Environment → Action σ Unit)

/-- The nodes are rendered to the end one after the other, each of them to a text of its own. -/
inductive Finish (environment : Environment) : List Node → σ → List String → σ → Prop where
  | nil (host : σ) : Finish environment [] host [] host
  | cons {node : Node} {nodes : List Node} {text : String} {texts : List String} {host host' host'' : σ}
    (hnode : node.render stage invoke environment ⟨"", host⟩ = (.ok (), ⟨text, host'⟩))
    (hnodes : Finish environment nodes host' texts host'') :
    Finish environment (node :: nodes) host (text :: texts) host''

/-- Rendering the tree fails like this, `calleeFails` telling how the trees of called templates fail. -/
inductive FailsAt (calleeFails : Node → Environment → σ → Breakdown σ → Prop) :
    Node → Environment → σ → Breakdown σ → Prop where
  /-- A segment of the path is missing. -/
  | missing {location : Location} {mode : RefMode} {path : Path} {environment : Environment} {segment : String}
    (h : environment.resolve stage.resolver path = .error segment) (host : σ) :
    FailsAt calleeFails (.reference location mode path) environment host
      ⟨[], .reference location mode path, .error (.paramNotFound location segment path), host⟩
  /-- The value has no text. -/
  | noText {location : Location} {mode : RefMode} {path : Path} {environment : Environment} {value : Value}
    (hvalue : environment.resolve stage.resolver path = .ok value) (htext : value.text = none) (host : σ) :
    FailsAt calleeFails (.reference location mode path) environment host
      ⟨[], .reference location mode path, .error (.notRenderable location path value.kind), host⟩
  /-- The call finds nothing. -/
  | undefined {location : Location} {target : Binding} {name : String} {args : List (String × Node)}
    (h : stage.registry.target? target name = none) (environment : Environment) (host : σ) :
    FailsAt calleeFails (.call location target name args) environment host
      ⟨[], .call location target name args, .error (.notDefined location name), host⟩
  /-- A child of a body fails, those in front of it having been rendered to the end. -/
  | child {location : Location} {before after : List Node} {node : Node} {environment : Environment} {host host' : σ}
    {texts : List String} {breakdown : Breakdown σ} (hbefore : Finish stage invoke environment before host texts host')
    (hnode : FailsAt calleeFails node environment host' breakdown) :
    FailsAt calleeFails (.body location (before ++ node :: after)) environment host (breakdown.behind (.child texts))
  | deferred {location : Location} {inner : Node} {environment : Environment} {host : σ} {breakdown : Breakdown σ}
    (hinner : FailsAt calleeFails inner environment host breakdown) :
    FailsAt calleeFails (.deferred location inner) environment host (breakdown.behind .deferred)
  /-- An argument of a call that finds something fails, the ones in front of it having been evaluated. -/
  | argument {location : Location} {target : Binding} {name key : String} {before after : List (String × Node)}
    {node : Node} {environment : Environment} {host host' : σ} {template : Template σ} {layer : List (String × Value)}
    {breakdown : Breakdown σ} (hfound : stage.registry.target? target name = some template)
    (hbefore : collect stage invoke before environment ⟨"", host⟩ = (.ok layer, ⟨"", host'⟩))
    (hpassed : ¬ node.PassesOn stage environment) (hnode : FailsAt calleeFails node environment host' breakdown) :
    FailsAt calleeFails (.call location target name (before ++ (key, node) :: after)) environment host
      (breakdown.behind (.argument before.length))
  /-- The tree that a call has found fails, with the arguments put over the environment. -/
  | callee {location : Location} {target : Binding} {name : String} {args : List (String × Node)}
    {environment : Environment} {host host' : σ} {tree : Node} {layer : List (String × Value)}
    {breakdown : Breakdown σ} (hfound : stage.registry.target? target name = some (.compiled tree))
    (hargs : collect stage invoke args environment ⟨"", host⟩ = (.ok layer, ⟨"", host'⟩))
    (htree : calleeFails tree (.layer layer environment) host' breakdown) :
    FailsAt calleeFails (.call location target name args) environment host (breakdown.behind (.callee target))

end

/-! ## Where there is a way, the render fails -/

variable {stage : Stage σ} {invoke : Node → Environment → Action σ Unit}
variable {calleeFails : Node → Environment → σ → Breakdown σ → Prop}

theorem Finish.renderAll (happends : ∀ tree environment, (invoke tree environment).Appends) {environment : Environment}
    {nodes : List Node} {texts : List String} {host host' : σ}
    (h : Finish stage invoke environment nodes host texts host') :
    renderAll stage invoke nodes environment ⟨"", host⟩ = (.ok (), ⟨String.join texts, host'⟩) := by
  induction h with
  | nil host => rfl
  | @cons node nodes text texts host host' host'' hnode _ ih =>
    have hmore : ∀ _ : Unit, (Node.renderAll stage invoke nodes environment).Appends :=
      fun _ => renderAll_appends happends nodes environment
    rw [Node.renderAll, Appends.bind_eq hmore hnode, ih, String.join_cons]

/-- A reference to a value that is missing fails before anything is written. -/
theorem render_missing {location : Location} {mode : RefMode} {path : Path} {environment : Environment}
    {segment : String} (h : environment.resolve stage.resolver path = .error segment) (output : Output σ) :
    (reference location mode path).render stage invoke environment output =
      (.error (.error (.paramNotFound location segment path)), output) := by
  have hvalue : stage.valueOf location path environment output =
      (.error (.error (.paramNotFound location segment path)), output) := by
    unfold Stage.valueOf
    rw [h]
    rfl
  rw [render]
  exact Action.bind_of_error (Action.bind_of_error hvalue)

theorem render_noText {location : Location} {mode : RefMode} {path : Path} {environment : Environment} {value : Value}
    (hvalue : environment.resolve stage.resolver path = .ok value) (htext : value.text = none) (output : Output σ) :
    (reference location mode path).render stage invoke environment output =
      (.error (.error (.notRenderable location path value.kind)), output) := by
  have hfail : stage.textOf location path environment output =
      (.error (.error (.notRenderable location path value.kind)), output) := by
    unfold Stage.textOf Stage.valueOf
    rw [hvalue, Action.pure_bind, htext]
    rfl
  rw [render]
  exact Action.bind_of_error hfail

/-- An argument fails as its tree does, and leaves nothing behind. -/
theorem evaluate_of_render {node : Node} {environment : Environment} {host : σ} {breakdown : Breakdown σ}
    (hpassed : ¬ node.PassesOn stage environment)
    (h : node.render stage invoke environment ⟨"", host⟩ = breakdown.outcome) :
    node.evaluate stage invoke environment ⟨"", host⟩ = (.error breakdown.reason, ⟨"", breakdown.host⟩) := by
  obtain ⟨location, path, rfl⟩ | hne := node.passed_or_ne
  · cases hresolve : environment.resolve stage.resolver path with
    | ok value => exact absurd ⟨location, path, value, rfl, hresolve⟩ hpassed
    | error segment =>
      rw [render_missing hresolve] at h
      obtain ⟨hreason, houtput⟩ := Prod.mk.inj h
      obtain ⟨-, hhost⟩ := Output.mk.inj houtput
      rw [← Except.error.inj hreason, ← hhost, evaluate, Stage.valueOf, hresolve]
      rfl
  · rw [evaluate]
    · exact Action.bind_of_error (Action.privately_of_error h "")
    · exact hne

/-- **Where there is a way to a failing node, the tree fails** and has written what is left along the way. -/
theorem FailsAt.render (hcallee : ∀ tree environment host breakdown, calleeFails tree environment host breakdown →
      invoke tree environment ⟨"", host⟩ = breakdown.outcome)
    (happends : ∀ tree environment, (invoke tree environment).Appends) {node : Node} {environment : Environment}
    {host : σ} {breakdown : Breakdown σ} (h : FailsAt stage invoke calleeFails node environment host breakdown) :
    node.render stage invoke environment ⟨"", host⟩ = breakdown.outcome := by
  induction h with
  | missing h host => exact render_missing h _
  | noText hvalue htext host => exact render_noText hvalue htext _
  | undefined h environment host =>
    rw [render_call, h]
    rfl
  | @child location before after node environment host host' texts breakdown hbefore _ ih =>
    -- The texts in front are in the buffer when the child starts, and what it leaves stands behind them.
    have hmore : ∀ _ : Unit, (renderAll stage invoke (node :: after) environment).Appends :=
      fun _ => renderAll_appends happends (node :: after) environment
    have hnode : renderAll stage invoke (node :: after) environment ⟨"", host'⟩ = breakdown.outcome := by
      rw [renderAll]
      exact Action.bind_of_error ih
    rw [Node.render, renderAll_append, Appends.bind_eq hmore (hbefore.renderAll happends), hnode,
      Breakdown.outcome_of_shares rfl]
    rfl
  | deferred _ ih =>
    rw [Node.render, Breakdown.outcome_of_leaves rfl]
    exact Action.bind_of_error (Action.privately_of_error ih "")
  | @argument location target name key before after node environment host host' template layer breakdown hfound hbefore
      hpassed _ ih =>
    have hnode : collect stage invoke ((key, node) :: after) environment ⟨"", host'⟩ =
        (.error breakdown.reason, ⟨"", breakdown.host⟩) := by
      rw [collect_cons_eq]
      exact Action.bind_of_error (evaluate_of_render hpassed ih)
    have hargs : collect stage invoke (before ++ (key, node) :: after) environment ⟨"", host⟩ =
        (.error breakdown.reason, ⟨"", breakdown.host⟩) := by
      rw [collect_append, Action.bind_of_ok hbefore]
      exact Action.bind_of_error hnode
    rw [render_call, hfound, Action.orFail_some, Action.pure_bind, Breakdown.outcome_of_leaves rfl]
    exact Action.bind_of_error hargs
  | @callee location target name args environment host host' tree layer breakdown hfound hargs htree =>
    have hrun := hcallee _ _ _ _ htree
    rw [render_call, hfound, Action.orFail_some, Action.pure_bind, Action.bind_of_ok hargs]
    cases target with
    | internal =>
      refine hrun.trans ?_
      rw [Breakdown.outcome_of_shares rfl]
      simp [Descent.finished, Breakdown.outcome]
    | external =>
      rw [Breakdown.outcome_of_leaves rfl]
      exact Action.bind_of_error (Action.privately_of_error hrun "")

/-- The node at the end of the way is the one that the error blames. -/
theorem FailsAt.located
    (hcallee : ∀ tree environment host breakdown, calleeFails tree environment host breakdown → breakdown.Located)
    {node : Node} {environment : Environment} {host : σ} {breakdown : Breakdown σ}
    (h : FailsAt stage invoke calleeFails node environment host breakdown) : breakdown.Located := by
  induction h with
  | missing | noText | undefined =>
    rintro error ⟨⟩
    rfl
  | child _ _ ih | deferred _ ih | argument _ _ _ _ ih => exact ih
  | callee _ _ htree =>
    intro error herror
    exact hcallee _ _ _ _ htree error herror

/-! ## There is a way to every failure -/

/-- An argument that fails is a tree that fails, and no value that could be passed on. -/
theorem render_of_evaluate {node : Node} {environment : Environment} {host : σ} {reason : Halt RenderError}
    (h : (node.evaluate stage invoke environment ⟨"", host⟩).1 = .error reason) :
    ¬ node.PassesOn stage environment ∧ (node.render stage invoke environment ⟨"", host⟩).1 = .error reason := by
  obtain ⟨location, path, rfl⟩ | hne := node.passed_or_ne
  · rw [evaluate, Stage.valueOf] at h
    cases hresolve : environment.resolve stage.resolver path with
    | ok value =>
      rw [hresolve] at h
      cases h
    | error segment =>
      rw [hresolve] at h
      constructor
      · rintro ⟨_, _, value, ⟨⟩, hvalue⟩
        rw [hresolve] at hvalue
        cases hvalue
      · rw [render_missing hresolve]
        exact congrArg Except.error (Except.error.inj h)
  · constructor
    · rintro ⟨location, path, _, heq, -⟩
      exact hne location path heq
    · rw [evaluate] at h
      · exact Action.error_of_privately_bind (fun _ _ => ⟨_, _, rfl⟩) h
      · exact hne

/-- What a call has found fails only if it is a tree that fails. -/
theorem exists_of_run {template : Template σ} {resolver : Resolver} {target : Binding} {environment : Environment}
    {host : σ} {reason : Halt RenderError}
    (h : (template.run resolver invoke target environment ⟨"", host⟩).1 = .error reason) :
    ∃ tree, template = .compiled tree ∧ (invoke tree environment ⟨"", host⟩).1 = .error reason := by
  cases template with
  | native function => cases h
  | compiled tree =>
    refine ⟨tree, rfl, ?_⟩
    cases target with
    | internal => exact h
    | external => exact Action.error_of_privately_bind (fun _ _ => ⟨_, _, rfl⟩) h

mutual

/-- **A tree that fails has a way to a node that fails**, if the trees that it calls have. -/
theorem exists_failsAt
    (hcallee : ∀ tree environment host reason, (invoke tree environment ⟨"", host⟩).1 = .error reason →
      ∃ breakdown, calleeFails tree environment host breakdown)
    (happends : ∀ tree environment, (invoke tree environment).Appends) :
    ∀ (node : Node) (environment : Environment) (host : σ) (reason : Halt RenderError),
      (node.render stage invoke environment ⟨"", host⟩).1 = .error reason →
        ∃ breakdown, FailsAt stage invoke calleeFails node environment host breakdown
  | literal _ _, _, _, _, h => by cases h
  | reference location mode path, environment, host, reason, h => by
    cases hresolve : environment.resolve stage.resolver path with
    | error segment => exact ⟨_, .missing hresolve host⟩
    | ok value =>
      cases htext : value.text with
      | none => exact ⟨_, .noText hresolve htext host⟩
      | some text =>
        rw [render, Stage.textOf, Stage.valueOf, hresolve, Action.pure_bind, htext] at h
        cases h
  | deferred location inner, environment, host, reason, h => by
    rw [render] at h
    obtain ⟨breakdown, hfails⟩ := exists_failsAt hcallee happends inner environment host reason
      (Action.error_of_privately_bind (fun _ _ => ⟨_, _, rfl⟩) h)
    exact ⟨_, .deferred hfails⟩
  | call location target name args, environment, host, reason, h => by
    rw [render_call] at h
    cases hfound : stage.registry.target? target name with
    | none => exact ⟨_, .undefined hfound environment host⟩
    | some template =>
      rw [hfound, Action.orFail_some, Action.pure_bind] at h
      rcases hargs : collect stage invoke args environment ⟨"", host⟩ with ⟨reason' | layer, after⟩
      · obtain ⟨before, key, node, more, layer, host', breakdown, rfl, hbefore, hpassed, hnode⟩ :=
          exists_failsAt_args hcallee happends args environment host reason' (by rw [hargs])
        exact ⟨_, .argument hfound hbefore hpassed hnode⟩
      · -- Arguments write nothing, so the tree that is called starts where the call did.
        obtain ⟨written, host'⟩ := after
        obtain rfl := (collect_silent args environment).written_eq hargs
        rw [Action.bind_of_ok hargs] at h
        obtain ⟨tree, rfl, htree⟩ := exists_of_run h
        obtain ⟨breakdown, hfails⟩ := hcallee tree _ host' reason htree
        exact ⟨_, .callee hfound hargs hfails⟩
  | body location children, environment, host, reason, h => by
    rw [render] at h
    obtain ⟨before, node, after, texts, host', breakdown, rfl, hbefore, hnode⟩ :=
      exists_failsAt_all hcallee happends children environment host reason h
    exact ⟨_, .child hbefore hnode⟩

theorem exists_failsAt_all
    (hcallee : ∀ tree environment host reason, (invoke tree environment ⟨"", host⟩).1 = .error reason →
      ∃ breakdown, calleeFails tree environment host breakdown)
    (happends : ∀ tree environment, (invoke tree environment).Appends) :
    ∀ (nodes : List Node) (environment : Environment) (host : σ) (reason : Halt RenderError),
      (renderAll stage invoke nodes environment ⟨"", host⟩).1 = .error reason →
        ∃ before node after texts host' breakdown, nodes = before ++ node :: after ∧
          Finish stage invoke environment before host texts host' ∧
          FailsAt stage invoke calleeFails node environment host' breakdown
  | [], _, _, _, h => by cases h
  | node :: nodes, environment, host, reason, h => by
    rcases hnode : node.render stage invoke environment ⟨"", host⟩ with ⟨reason' | ⟨⟩, ⟨text, host'⟩⟩
    · obtain ⟨breakdown, hfails⟩ := exists_failsAt hcallee happends node environment host reason' (by rw [hnode])
      exact ⟨[], node, nodes, [], host, breakdown, rfl, .nil host, hfails⟩
    · have hmore : ∀ _ : Unit, (renderAll stage invoke nodes environment).Appends :=
        fun _ => renderAll_appends happends nodes environment
      rw [renderAll, Appends.bind_eq hmore hnode] at h
      obtain ⟨before, other, after, texts, host'', breakdown, rfl, hbefore, hfails⟩ :=
        exists_failsAt_all hcallee happends nodes environment host' reason h
      exact ⟨node :: before, other, after, text :: texts, host'', breakdown, rfl, .cons hnode hbefore, hfails⟩

theorem exists_failsAt_args
    (hcallee : ∀ tree environment host reason, (invoke tree environment ⟨"", host⟩).1 = .error reason →
      ∃ breakdown, calleeFails tree environment host breakdown)
    (happends : ∀ tree environment, (invoke tree environment).Appends) :
    ∀ (args : List (String × Node)) (environment : Environment) (host : σ) (reason : Halt RenderError),
      (collect stage invoke args environment ⟨"", host⟩).1 = .error reason →
        ∃ before key node after layer host' breakdown, args = before ++ (key, node) :: after ∧
          collect stage invoke before environment ⟨"", host⟩ = (.ok layer, ⟨"", host'⟩) ∧
          ¬ node.PassesOn stage environment ∧ FailsAt stage invoke calleeFails node environment host' breakdown
  | [], _, _, _, h => by cases h
  | (name, node) :: args, environment, host, reason, h => by
    rw [collect_cons_eq] at h
    rcases hnode : node.evaluate stage invoke environment ⟨"", host⟩ with ⟨reason' | value, ⟨written, host'⟩⟩
    · have herror : (node.evaluate stage invoke environment ⟨"", host⟩).1 = .error reason' := by rw [hnode]
      obtain ⟨hpassed, hrender⟩ := render_of_evaluate herror
      obtain ⟨breakdown, hfails⟩ := exists_failsAt hcallee happends node environment host reason' hrender
      exact ⟨[], name, node, args, [], host, breakdown, rfl, rfl, hpassed, hfails⟩
    · obtain rfl := (evaluate_silent node environment).written_eq hnode
      rw [Action.bind_of_ok hnode] at h
      have hmore : (collect stage invoke args environment ⟨"", host'⟩).1 = .error reason := by
        rcases hrest : collect stage invoke args environment ⟨"", host'⟩ with ⟨reason' | layer, after⟩
        · rw [Action.bind_of_error hrest] at h
          exact h
        · rw [Action.bind_of_ok hrest] at h
          cases h
      obtain ⟨before, key, other, after, layer, host'', breakdown, rfl, hbefore, hpassed, hfails⟩ :=
        exists_failsAt_args hcallee happends args environment host' reason hmore
      refine ⟨(name, node) :: before, key, other, after, (name, value) :: layer, host'', breakdown, rfl, ?_, hpassed,
        hfails⟩
      rw [collect_cons_eq, Action.bind_of_ok hnode, Action.bind_of_ok hbefore]
      rfl

end

end Node

/-! ## Whole renders -/

namespace Stage

/-- Rendering the tree fails like this if no more than `depth` calls may be nested in one another. A call that is one
    too many finds its tree, evaluates its arguments, and is cut off. -/
def FailsAt (stage : Stage σ) : Nat → Node → Environment → σ → Breakdown σ → Prop
  | 0 =>
    Node.FailsAt stage (fun _ _ => .halt .tooDeep) fun tree _ host breakdown => breakdown = ⟨[], tree, .tooDeep, host⟩
  | depth + 1 => Node.FailsAt stage (stage.renderTree depth) (FailsAt stage depth)

variable {stage : Stage σ}

/-- **A render for which there is a way to a failing node** fails for the reason of that node, and what it has written
    is what is left along the way. -/
theorem FailsAt.renderTree {depth : Nat} {tree : Node} {environment : Environment} {host : σ} {breakdown : Breakdown σ}
    (h : stage.FailsAt depth tree environment host breakdown) :
    stage.renderTree depth tree environment ⟨"", host⟩ = breakdown.outcome := by
  induction depth generalizing tree environment host breakdown with
  | zero =>
    refine Node.FailsAt.render ?_ (fun _ _ => .halt .tooDeep) h
    rintro tree environment host breakdown rfl
    rfl
  | succ depth ih =>
    refine Node.FailsAt.render ?_ (stage.renderTree_appends depth) h
    intro tree environment host breakdown
    exact ih

/-- **A render that fails has a way to a failing node.** -/
theorem exists_failsAt {depth : Nat} {tree : Node} {environment : Environment} {host : σ} {reason : Halt RenderError}
    (h : (stage.renderTree depth tree environment ⟨"", host⟩).1 = .error reason) :
    ∃ breakdown, stage.FailsAt depth tree environment host breakdown := by
  induction depth generalizing tree environment host reason with
  | zero =>
    refine Node.exists_failsAt ?_ (fun _ _ => .halt .tooDeep) tree environment host reason h
    intro tree environment host reason _
    exact ⟨_, rfl⟩
  | succ depth ih =>
    exact Node.exists_failsAt (fun _ _ _ _ => ih) (stage.renderTree_appends depth) tree environment host reason h

/-- An error blames the node that fails. -/
theorem FailsAt.located {depth : Nat} {tree : Node} {environment : Environment} {host : σ} {breakdown : Breakdown σ}
    (h : stage.FailsAt depth tree environment host breakdown) : breakdown.Located := by
  induction depth generalizing tree environment host breakdown with
  | zero =>
    refine Node.FailsAt.located ?_ h
    rintro tree environment host breakdown rfl error ⟨⟩
  | succ depth ih =>
    refine Node.FailsAt.located ?_ h
    intro tree environment host breakdown
    exact ih

end Stage

namespace Engine

/-- **What a render leaves in the buffer.** It does not depend on what was written there before. If the render
    succeeds, it is the text of the render. A render without a template leaves nothing. If the render of a tree fails,
    there is a way from the root of the tree to the node that the error blames, and it leaves what was finished along the
    way. -/
theorem renderInto_leftover (engine : Engine σ) (depth : Nat) (name : String) (params : Value) (host : σ) :
    ∃ result text host',
      (∀ written, engine.renderInto depth name params ⟨written, host⟩ = (result, ⟨written ++ text, host'⟩)) ∧
      engine.render depth name params host = (result.map fun () => text, host') ∧
      match engine.registry.external? name with
      | none =>
        result = .error (engine.explain (.error (.templateNotFound name))) ∧ text = "" ∧ host' = host
      | some (.native function) =>
        result = .ok () ∧ (text, host') = function ⟨.params params, engine.resolver⟩ host
      | some (.compiled tree) =>
        (∀ reason, result = .error reason →
          ∃ breakdown, engine.stage.FailsAt depth tree (.params params) host breakdown ∧ breakdown.Located) ∧
        ∀ breakdown, engine.stage.FailsAt depth tree (.params params) host breakdown →
          result = .error (engine.explain breakdown.reason) ∧ text = leftover breakdown.way ∧
            host' = breakdown.host := by
  have happends := engine.stage.render_appends depth name params
  rcases hrun : engine.stage.render depth name params ⟨"", host⟩ with ⟨result, ⟨text, host'⟩⟩
  refine ⟨result.mapError engine.explain, text, host', ?_, ?_, ?_⟩
  · intro written
    unfold renderInto
    rw [happends written host, hrun]
  · unfold render renderInto
    rw [hrun]
  · unfold Stage.render at hrun
    cases hfound : engine.registry.external? name with
    | none =>
      rw [show engine.stage.registry.external? name = none from hfound] at hrun
      cases hrun
      exact ⟨rfl, rfl, rfl⟩
    | some template =>
      rw [show engine.stage.registry.external? name = some template from hfound] at hrun
      cases template with
      | native function =>
        cases hrun
        rw [String.empty_append]
        exact ⟨rfl, rfl⟩
      | compiled tree =>
        dsimp only at hrun
        constructor
        · intro reason hreason
          have hstop : ∃ stop, result = .error stop := by
            cases result with
            | error stop => exact ⟨stop, rfl⟩
            | ok value => cases hreason
          obtain ⟨stop, rfl⟩ := hstop
          obtain ⟨breakdown, hfails⟩ := Stage.exists_failsAt (congrArg Prod.fst hrun)
          exact ⟨breakdown, hfails, hfails.located⟩
        · intro breakdown hfails
          rw [hfails.renderTree] at hrun
          cases hrun
          exact ⟨rfl, rfl, rfl⟩

/-- The second node of a called template is missing its value, behind one that is finished. An internal call leaves that
    one behind as well, an external call does not. -/
theorem renderInto_leftover_called :
    let list := Node.body default [.literal default "b", .reference default .escaped ["x"], .literal default "c"]
    let page (target : Binding) := Node.body default [.literal default "a", .call default target "list" []]
    let engine (target : Binding) : Engine Unit := ((Engine.new false).define "list" list).define "page" (page target)
    let after (target : Binding) := ((engine target).renderInto 1 "page" .emptyMap ⟨"+", ()⟩).2.written
    after .internal = "+ab" ∧ after .external = "+a" := by
  intro list page engine after
  have hleft : ∀ target, after target = "+" ++ leftover [.child ["a"], .callee target, .child ["b"]] := by
    intro target
    have hpage : (engine target).registry.external? "page" = some (.compiled (page target)) := by
      simp [engine, define, Registry.external?_define]
      rfl
    have hlist : (engine target).stage.registry.target? target "list" = some (.compiled list) := by
      cases target <;>
        simp [engine, stage, define, new, Registry.target?, Registry.internal?_define, Registry.external?_define]
    have hfails : (engine target).stage.FailsAt 1 (page target) (.params .emptyMap) () _ :=
      .child (.cons rfl (.nil ())) (.callee hlist rfl (.child (.cons rfl (.nil ())) (.missing rfl ())))
    obtain ⟨result, text, host', hinto, -, htree⟩ := renderInto_leftover (engine target) 1 "page" .emptyMap ()
    rw [hpage] at htree
    obtain ⟨-, htext, -⟩ := htree.2 _ hfails
    rw [show after target = _ from congrArg (·.2.written) (hinto "+"), htext]
    rfl
  exact ⟨hleft .internal, hleft .external⟩

end Engine

end HtmlTemplate
