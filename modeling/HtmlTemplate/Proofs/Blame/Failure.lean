import HtmlTemplate.Proofs.Blame.Spot
import HtmlTemplate.Proofs.Render.Calls
import HtmlTemplate.Proofs.Session.Completed

/-!
# What a failing render blames

The error of a render is blamed on a spot of some tree that the tables hold, however deep the failing call is
(`Stage.render_fails`), and if it is that a template is not defined, then a call in this tree found nothing in the table
that it looks into (`Stage.render_fails_call`). The walk over one tree is looked at with the rendering of calls as a
parameter (`Node.fails_render`), and the bound on nested calls is the induction that ties the knot.

## Contents

* `RenderError.spot?` — the spot that an error is blamed on;
* `Action.Fails` — what holds of every error of an action;
* `Node.Blamed`, `Node.fails_render` — what holds of every error of one tree;
* `Registry.Blames`, `Registry.Misses` — errors that are blamed on trees of the tables, and on calls in them;
* `Stage.fails_render`, `Stage.render_fails`, `Stage.render_fails_call` — a whole render.
-/

namespace HtmlTemplate

/-- What the error is blamed on, and where that stands. -/
def RenderError.spot? : RenderError → Option (Location × Spot)
  | paramNotFound place _ path | notRenderable place path _ => some (place, .reference path)
  | notDefined place name => some (place, .call name)
  | templateNotFound _ => none

variable {σ : Type}

/-! ## Errors of actions -/

namespace Action

variable {α β : Type} {P : RenderError → Prop}

/-- Every error of the action is one of which `P` holds. -/
def Fails (action : Action σ α) (P : RenderError → Prop) : Prop :=
  ∀ output error, (action output).1 = .error (.error error) → P error

theorem fails_pure (value : α) : (pure value : Action σ α).Fails P := nofun

theorem fails_emit (text : String) : (emit text : Action σ Unit).Fails P := nofun

theorem fails_tooDeep : (halt .tooDeep : Action σ α).Fails P := by
  intro output error h
  cases h

theorem fails_fail {error : RenderError} (h : P error) : (fail error : Action σ α).Fails P := by
  intro output other hother
  cases hother
  exact h

theorem fails_onHost (function : σ → α × σ) : (onHost function).Fails P := nofun

theorem Fails.bind {action : Action σ α} {next : α → Action σ β} (h : action.Fails P)
    (hnext : ∀ value, (next value).Fails P) : (action >>= next).Fails P := by
  intro output error herror
  rw [bind_apply] at herror
  rcases haction : action output with ⟨_ | value, output'⟩
  · rw [haction] at herror
    cases herror
    exact h output error (by rw [haction])
  · rw [haction] at herror
    exact hnext value output' error herror

/-- Going on with the value of an option, or failing if there is none. -/
theorem fails_orFail_bind {error : RenderError} {found : Option α} {next : α → Action σ β}
    (hnone : found = none → P error) (hsome : ∀ value, found = some value → (next value).Fails P) :
    (orFail error found >>= next).Fails P := by
  cases found with
  | none =>
    intro output other hother
    cases hother
    exact hnone rfl
  | some value => exact hsome value rfl

theorem Fails.privately {action : Action σ Unit} (h : action.Fails P) : action.privately.Fails P := by
  intro output error herror
  unfold Action.privately at herror
  rcases haction : action { output with written := "" } with ⟨_ | _, inner⟩
  · rw [haction] at herror
    cases herror
    exact h _ error (by rw [haction])
  · rw [haction] at herror
    cases herror

end Action

/-! ## One tree -/

variable {stage : Stage σ} {P : RenderError → Prop}

theorem Stage.fails_valueOf {place : Location} {path : Path}
    (h : ∀ error : RenderError, error.spot? = some (place, .reference path) → P error) (environment : Environment) :
    (stage.valueOf place path environment).Fails P := by
  unfold Stage.valueOf
  cases environment.resolve stage.resolver path with
  | ok value => exact Action.fails_pure value
  | error segment => exact Action.fails_fail (h _ rfl)

theorem Stage.fails_textOf {place : Location} {path : Path}
    (h : ∀ error : RenderError, error.spot? = some (place, .reference path) → P error) (environment : Environment) :
    (stage.textOf place path environment).Fails P := by
  unfold Stage.textOf
  apply (Stage.fails_valueOf h environment).bind
  intro value
  cases value.text with
  | none => exact Action.fails_fail (h _ rfl)
  | some text => exact Action.fails_pure text

/-- What a call has found fails as the trees of called templates do. -/
theorem Template.fails_run {registry : Registry σ} {invoke : Node → Environment → Action σ Unit}
    (hinvoke : ∀ name tree environment, registry.Holds name tree → (invoke tree environment).Fails P)
    {target : Binding} {name : String} {template : Template σ} (hfound : registry.target? target name = some template)
    (resolver : Resolver) (environment : Environment) :
    (template.run resolver invoke target environment).Fails P := by
  cases template with
  | native function => exact (Action.fails_onHost _).bind Action.fails_emit
  | compiled tree =>
    have htree := hinvoke name tree environment (Registry.holds_of_target? hfound)
    cases target with
    | internal => exact htree
    | external => exact htree.privately.bind Action.fails_emit

namespace Node

variable {invoke : Node → Environment → Action σ Unit}

/-- `P` holds of the errors that some spots and calls of a tree can make: those that are blamed on its references, and
    those of calls that find nothing. -/
structure Blamed (registry : Registry σ) (spots : List (Location × Spot)) (calls : List CallSite)
    (P : RenderError → Prop) : Prop where
  reference : ∀ place path, (place, .reference path) ∈ spots →
    ∀ error : RenderError, error.spot? = some (place, .reference path) → P error
  call : ∀ site ∈ calls, registry.target? site.target site.name = none → P (.notDefined site.place site.name)

theorem Blamed.mono {registry : Registry σ} {spots spots' : List (Location × Spot)} {calls calls' : List CallSite}
    (h : Blamed registry spots calls P) (hspots : spots' ⊆ spots) (hcalls : calls' ⊆ calls) :
    Blamed registry spots' calls' P :=
  ⟨fun place path hmem => h.reference place path (hspots hmem), fun site hmem => h.call site (hcalls hmem)⟩

mutual

/-- The errors of a tree are made by its spots and calls, if those of the trees that it calls are as they should be. -/
theorem fails_render
    (hinvoke : ∀ name tree environment, stage.registry.Holds name tree → (invoke tree environment).Fails P) :
    ∀ (node : Node) (environment : Environment), Blamed stage.registry node.spots node.calls P →
      (node.render stage invoke environment).Fails P
  | literal _ text, _, _ => Action.fails_emit text
  | reference place mode path, environment, h => by
    rw [render]
    apply (Stage.fails_textOf (h.reference place path (List.mem_singleton_self _)) environment).bind
    intro text
    exact Action.fails_emit _
  | deferred _ inner, environment, h => by
    rw [render]
    apply (fails_render hinvoke inner environment h).privately.bind
    intro text
    exact Action.fails_emit text
  | call place target name args, environment, h => by
    rw [render_call]
    apply Action.fails_orFail_bind (h.call _ List.mem_cons_self)
    intro template hfound
    have hargs : Blamed stage.registry (spotsArgs args) (callsArgs args) P :=
      h.mono (List.subset_cons_self _ _) (List.subset_cons_self _ _)
    apply (fails_collect hinvoke args environment hargs).bind
    intro layer
    exact Template.fails_run hinvoke hfound _ _
  | body _ children, environment, h => by
    rw [render]
    exact fails_renderAll hinvoke children environment h

theorem fails_renderAll
    (hinvoke : ∀ name tree environment, stage.registry.Holds name tree → (invoke tree environment).Fails P) :
    ∀ (nodes : List Node) (environment : Environment), Blamed stage.registry (spotsAll nodes) (callsAll nodes) P →
      (renderAll stage invoke nodes environment).Fails P
  | [], _, _ => Action.fails_pure ()
  | node :: nodes, environment, h => by
    have hnode := h.mono (List.subset_append_left _ _) (List.subset_append_left _ _)
    have hnodes := h.mono (List.subset_append_right _ _) (List.subset_append_right _ _)
    rw [renderAll]
    apply (fails_render hinvoke node environment hnode).bind
    intro _
    exact fails_renderAll hinvoke nodes environment hnodes

theorem fails_collect
    (hinvoke : ∀ name tree environment, stage.registry.Holds name tree → (invoke tree environment).Fails P) :
    ∀ (args : List (String × Node)) (environment : Environment),
      Blamed stage.registry (spotsArgs args) (callsArgs args) P → (collect stage invoke args environment).Fails P
  | [], _, _ => Action.fails_pure []
  | (name, node) :: args, environment, h => by
    have hnode : Blamed stage.registry node.spots node.calls P :=
      h.mono (List.subset_append_left _ _) (List.subset_append_left _ _)
    have hmore := fails_collect hinvoke args environment
      (h.mono (List.subset_append_right _ _) (List.subset_append_right _ _))
    obtain ⟨place, path, rfl⟩ | hne := node.passed_or_ne
    · rw [collect]
      apply (Stage.fails_valueOf (hnode.reference place path (List.mem_singleton_self _)) environment).bind
      intro value
      exact hmore.bind fun _ => Action.fails_pure _
    · rw [collect_cons stage invoke hne]
      apply (fails_render hinvoke node environment hnode).privately.bind
      intro text
      exact hmore.bind fun _ => Action.fails_pure _

end

mutual

/-- The name of a call can be blamed where the call stands. -/
theorem mem_spots_of_mem_calls {site : CallSite} :
    ∀ node : Node, site ∈ node.calls → (site.place, .call site.name) ∈ node.spots
  | literal _ _, h | reference _ _ _, h => nomatch h
  | deferred _ inner, h => mem_spots_of_mem_calls inner h
  | call _ _ _ args, h => by
    rcases List.mem_cons.mp h with rfl | hargs
    · exact List.mem_cons_self
    · exact List.mem_cons_of_mem _ (mem_spotsArgs_of_mem_callsArgs args hargs)
  | body _ children, h => mem_spotsAll_of_mem_callsAll children h

theorem mem_spotsAll_of_mem_callsAll {site : CallSite} :
    ∀ nodes : List Node, site ∈ callsAll nodes → (site.place, .call site.name) ∈ spotsAll nodes
  | [], h => nomatch h
  | node :: nodes, h => by
    rcases List.mem_append.mp h with hnode | hnodes
    · exact List.mem_append_left _ (mem_spots_of_mem_calls node hnode)
    · exact List.mem_append_right _ (mem_spotsAll_of_mem_callsAll nodes hnodes)

theorem mem_spotsArgs_of_mem_callsArgs {site : CallSite} :
    ∀ args : List (String × Node), site ∈ callsArgs args → (site.place, .call site.name) ∈ spotsArgs args
  | [], h => nomatch h
  | (_, node) :: args, h => by
    rcases List.mem_append.mp h with hnode | hargs
    · exact List.mem_append_left _ (mem_spots_of_mem_calls node hnode)
    · exact List.mem_append_right _ (mem_spotsArgs_of_mem_callsArgs args hargs)

end

end Node

/-! ## A whole render -/

/-- The error is blamed on a spot of a tree that the tables hold. -/
def Registry.Blames (registry : Registry σ) (error : RenderError) : Prop :=
  ∃ name tree spot, registry.Holds name tree ∧ spot ∈ tree.spots ∧ error.spot? = some spot

/-- If the error is that a template is not defined, then a call in a tree of the tables finds nothing. -/
def Registry.Misses (registry : Registry σ) (error : RenderError) : Prop :=
  ∀ place name, error = .notDefined place name → ∃ owner tree target,
    registry.Holds owner tree ∧ ⟨place, target, name⟩ ∈ tree.calls ∧ registry.target? target name = none

namespace Stage

theorem renderTree_fails
    (hblamed : ∀ name tree, stage.registry.Holds name tree → Node.Blamed stage.registry tree.spots tree.calls P)
    (depth : Nat) : ∀ (name : String) (tree : Node) (environment : Environment),
      stage.registry.Holds name tree → (stage.renderTree depth tree environment).Fails P := by
  induction depth with
  | zero =>
    intro name tree environment hholds
    unfold renderTree
    exact Node.fails_render (fun _ _ _ _ => Action.fails_tooDeep) tree environment (hblamed name tree hholds)
  | succ depth ih =>
    intro name tree environment hholds
    unfold renderTree
    exact Node.fails_render ih tree environment (hblamed name tree hholds)

/-- The errors of a render are made by the spots and calls of the trees that the tables hold, unless there is no
    template to render. -/
theorem fails_render
    (hblamed : ∀ name tree, stage.registry.Holds name tree → Node.Blamed stage.registry tree.spots tree.calls P)
    (depth : Nat) {name : String} (hname : P (.templateNotFound name)) (params : Value) :
    (stage.render depth name params).Fails P := by
  unfold render
  cases hfound : stage.registry.external? name with
  | none => exact Action.fails_fail hname
  | some template =>
    cases template with
    | compiled tree => exact renderTree_fails hblamed depth name tree _ (.inr hfound)
    | native function => exact (Action.fails_onHost _).bind Action.fails_emit

/-- **A failing render blames a spot of a tree that the tables hold**, unless there is no template to render. -/
theorem render_fails (depth : Nat) (name : String) (params : Value) :
    (stage.render depth name params).Fails fun error =>
      error = .templateNotFound name ∨ stage.registry.Blames error := by
  refine fails_render ?_ depth (.inl rfl) params
  intro owner tree hholds
  constructor
  · intro place path hspot error herror
    exact .inr ⟨owner, tree, _, hholds, hspot, herror⟩
  · intro site hsite _
    exact .inr ⟨owner, tree, _, hholds, tree.mem_spots_of_mem_calls hsite, rfl⟩

/-- **What is not defined has been called**, and was not found in the table that this call looks into. -/
theorem render_fails_call (depth : Nat) (name : String) (params : Value) :
    (stage.render depth name params).Fails stage.registry.Misses := by
  refine fails_render ?_ depth nofun params
  intro owner tree hholds
  constructor
  · rintro place path - _ herror missing name rfl
    cases herror
  · rintro site hsite hnone _ _ ⟨⟩
    exact ⟨owner, tree, site.target, hholds, hsite, hnone⟩

end Stage

end HtmlTemplate
