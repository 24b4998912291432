import Mathlib.Logic.Relation
import HtmlTemplate.Proofs.Render.Calls
import HtmlTemplate.Proofs.Render.Flattened

/-!
# How deep calls are nested

Only calls leave the tree that is being rendered. So a render can run on only if there is no end to the calls that one
tree makes, and those that the called trees make, and so on. Where there is an end to them, it bounds the nesting of
calls whatever the parameters and the resolver are (`Stage.render_ends`): the tables alone tell it.

## Contents

* `Action.Ends` — actions that are not cut off;
* `Registry.Calls`, `Registry.CallsWithin` — the trees that a tree calls, and bounds on chains of such calls;
* `Node.render_ends`, `Stage.renderTree_ends`, `Stage.render_ends` — one tree, calls however deep, and renders.
-/

namespace HtmlTemplate

variable {σ : Type}

/-! ## Actions -/

namespace Action

variable {α β : Type}

/-- The action is not cut off by a bound on nested calls, whatever it starts with. -/
def Ends (action : Action σ α) : Prop := ∀ output, (action output).1 ≠ .error .tooDeep

namespace Ends

theorem pure (value : α) : (Pure.pure value : Action σ α).Ends := nofun

theorem emit (text : String) : (Action.emit text : Action σ Unit).Ends := nofun

theorem onHost (function : σ → α × σ) : (Action.onHost function).Ends := nofun

theorem orFail (error : RenderError) (found : Option α) : (Action.orFail error found : Action σ α).Ends := by
  cases found with
  | none => exact nofun
  | some value => exact pure value

theorem bind {action : Action σ α} {next : α → Action σ β} (h : action.Ends) (hnext : ∀ value, (next value).Ends) :
    (action >>= next).Ends := by
  intro output
  have hfirst := h output
  rw [bind_apply]
  generalize action output = first at hfirst
  rcases first with ⟨reason | value, after⟩
  · intro hcut
    exact hfirst (congrArg Except.error (Except.error.inj hcut))
  · exact hnext value after

theorem privately {action : Action σ Unit} (h : action.Ends) : action.privately.Ends := by
  intro output
  have hinner := h { output with written := "" }
  unfold Action.privately
  generalize action { output with written := "" } = done at hinner
  rcases done with ⟨reason | ⟨⟩, inner⟩
  · intro hcut
    exact hinner (congrArg Except.error (Except.error.inj hcut))
  · exact nofun

end Ends

end Action

open HtmlTemplate.Action (Ends)

/-! ## Chains of calls -/

namespace Registry

variable {registry : Registry σ}

/-- A call in the first tree, in an argument perhaps, finds the second one. -/
def Calls (registry : Registry σ) (tree callee : Node) : Prop :=
  ∃ site ∈ tree.calls, registry.target? site.target site.name = some (.compiled callee)

/-- No chain of calls from this tree on is longer than the bound. -/
def CallsWithin (registry : Registry σ) : (bound : Nat) → Node → Prop
  | 0, tree => ∀ callee, ¬ registry.Calls tree callee
  | bound + 1, tree => ∀ callee, registry.Calls tree callee → registry.CallsWithin bound callee

end Registry

/-! ## One tree -/

variable {stage : Stage σ} {invoke : Node → Environment → Action σ Unit}

theorem Stage.valueOf_ends (location : Location) (path : Path) (environment : Environment) :
    (stage.valueOf location path environment).Ends := by
  unfold Stage.valueOf
  cases environment.resolve stage.resolver path with
  | ok value => exact .pure value
  | error segment => exact .orFail _ none

theorem Stage.textOf_ends (location : Location) (path : Path) (environment : Environment) :
    (stage.textOf location path environment).Ends := by
  unfold Stage.textOf
  exact (Stage.valueOf_ends location path environment).bind fun value => .orFail _ value.text

theorem Template.run_ends {template : Template σ}
    (h : ∀ tree environment, template = .compiled tree → (invoke tree environment).Ends) (resolver : Resolver)
    (target : Binding) (environment : Environment) : (template.run resolver invoke target environment).Ends := by
  cases template with
  | native function => exact (Ends.onHost _).bind Ends.emit
  | compiled tree =>
    have htree := h tree environment rfl
    cases target with
    | internal => exact htree
    | external => exact htree.privately.bind Ends.emit

namespace Node

mutual

/-- One tree is rendered to the end, or to an error, if the trees that its calls find are. -/
theorem render_ends : ∀ (node : Node) (environment : Environment),
    (∀ site ∈ node.calls, ∀ tree environment, stage.registry.target? site.target site.name = some (.compiled tree) →
      (invoke tree environment).Ends) → (node.render stage invoke environment).Ends
  | literal _ text, _, _ => .emit text
  | reference location mode path, environment, _ => by
    rw [render]
    exact (Stage.textOf_ends location path environment).bind fun text => .emit _
  | deferred _ inner, environment, h => by
    rw [render]
    exact (render_ends inner environment h).privately.bind Ends.emit
  | call location target name args, environment, h => by
    rw [render_call]
    cases hfound : stage.registry.target? target name with
    | none => exact nofun
    | some template =>
      have hargs := collect_ends args environment fun site hsite => h site (List.mem_cons_of_mem _ hsite)
      apply hargs.bind
      intro layer
      apply Template.run_ends
      rintro tree environment rfl
      exact h ⟨location, target, name⟩ List.mem_cons_self tree environment hfound
  | body _ children, environment, h => by
    rw [render]
    exact renderAll_ends children environment h

theorem renderAll_ends : ∀ (nodes : List Node) (environment : Environment),
    (∀ site ∈ callsAll nodes, ∀ tree environment,
      stage.registry.target? site.target site.name = some (.compiled tree) → (invoke tree environment).Ends) →
      (renderAll stage invoke nodes environment).Ends
  | [], _, _ => .pure ()
  | node :: nodes, environment, h => by
    rw [renderAll]
    apply (render_ends node environment fun site hsite => h site (List.mem_append_left _ hsite)).bind
    intro _
    exact renderAll_ends nodes environment fun site hsite => h site (List.mem_append_right _ hsite)

theorem collect_ends : ∀ (args : List (String × Node)) (environment : Environment),
    (∀ site ∈ callsArgs args, ∀ tree environment,
      stage.registry.target? site.target site.name = some (.compiled tree) → (invoke tree environment).Ends) →
      (collect stage invoke args environment).Ends
  | [], _, _ => .pure []
  | (name, node) :: args, environment, h => by
    have hmore := collect_ends args environment fun site hsite => h site (List.mem_append_right _ hsite)
    obtain ⟨location, path, rfl⟩ | hne := node.passed_or_ne
    · rw [collect]
      apply (Stage.valueOf_ends location path environment).bind
      intro value
      exact hmore.bind fun _ => .pure _
    · rw [collect_cons stage invoke hne]
      apply (render_ends node environment fun site hsite => h site (List.mem_append_left _ hsite)).privately.bind
      intro text
      exact hmore.bind fun _ => .pure _

end

end Node

/-! ## Renders -/

namespace Stage

/-- **Calls that are nested no deeper than the bound** do not reach it. -/
theorem renderTree_ends {depth : Nat} {tree : Node} (h : stage.registry.CallsWithin depth tree)
    (environment : Environment) : (stage.renderTree depth tree environment).Ends := by
  induction depth generalizing tree environment with
  | zero =>
    -- There is no template that could be called.
    apply Node.render_ends
    intro site hsite callee _ hfound
    exact absurd ⟨site, hsite, hfound⟩ (h callee)
  | succ depth ih =>
    apply Node.render_ends
    intro site hsite callee environment hfound
    exact ih (h callee ⟨site, hsite, hfound⟩) environment

/-- A render is not cut off if its bound is one for the tree of its template. -/
theorem render_ends {depth : Nat} {name : String}
    (h : ∀ tree, stage.registry.external? name = some (.compiled tree) → stage.registry.CallsWithin depth tree)
    (params : Value) : (stage.render depth name params).Ends := by
  unfold render
  cases hfound : stage.registry.external? name with
  | none => exact nofun
  | some template =>
    cases template with
    | native function => exact (Ends.onHost _).bind Ends.emit
    | compiled tree => exact renderTree_ends (h tree hfound) _

end Stage

end HtmlTemplate
