import Mathlib.Data.List.Forall2
import HtmlTemplate.Engine
import HtmlTemplate.Proofs.Render.Appends
import HtmlTemplate.Proofs.Render.Calls

/-!
# One render that follows another

Two renders of one tree on the same stage may see different environments, and may nest their calls up to different
bounds. The second one follows the first if it does the same as long as the first goes on, and if it has written at
least as much where the first stops. For some reasons to stop it may also have to stop alike.

Whether an environment may stand in for another one is a question about a tree, and about the values that the two have
(`Stage.StandsIn`). The walk over the tree is done once (`Node.render_follows`), for whatever answer there is to this
question; and since an environment stands in for itself, a render whose bound is not reached does the same with every
greater one (`Stage.render_of_le`).

## Contents

* `Follows`, `Action.FollowedBy` — ends of runs, and actions of which one follows the other;
* `Action.FollowedBy.bind`, `.privately`, `.halt_left` — the basic actions;
* `Stage.StandsIn` — environments and values that may stand in for others;
* `Resolver.walk_related`, `Environment.resolve_related`, `Stage.valueOf_related` — paths, where related values have
  related fields;
* `Node.render_follows`, `Stage.renderTree_follows`, `Stage.render_follows` — one tree, calls however deep, and renders;
* `Stage.render_of_le`, `Engine.renderInto_of_le` — a bound that is not reached does not show.
-/

namespace HtmlTemplate

variable {σ α β γ δ : Type}

/-! ## Actions -/

/-- How the end of a run compares with the end of one that goes on for at least as long. Where the first run ends with
    a value, the second one has written the same and ends with a value that may stand in for it. Where the first one
    stops, the second one has written that much, and does the same if the reason is a `shared` one. -/
inductive Follows (shared : Halt RenderError → Prop) (V : α → β → Prop) :
    Except (Halt RenderError) α × Output σ → Except (Halt RenderError) β × Output σ → Prop where
  | value {value : α} {value' : β} (after : Output σ) (hvalue : V value value') :
    Follows shared V (.ok value, after) (.ok value', after)
  | halt {reason : Halt RenderError} {after : Output σ} {done : Except (Halt RenderError) β × Output σ}
    (hshared : shared reason → done = (.error reason, after))
    (hmore : ∃ more, done.2.written = after.written ++ more) : Follows shared V (.error reason, after) done

namespace Action

/-- Started with the same output, the second action follows the first. -/
def FollowedBy (shared : Halt RenderError → Prop) (V : α → β → Prop) (action : Action σ α) (action' : Action σ β) :
    Prop :=
  ∀ output, Follows shared V (action output) (action' output)

namespace FollowedBy

variable {shared : Halt RenderError → Prop} {V : α → β → Prop} {W : γ → δ → Prop}

theorem pure {value : α} {value' : β} (h : V value value') :
    FollowedBy shared V (Pure.pure value : Action σ α) (Pure.pure value' : Action σ β) :=
  fun output => .value output h

/-- An action follows itself. -/
theorem refl {V : α → α → Prop} (hV : ∀ value, V value value) (action : Action σ α) :
    FollowedBy shared V action action := by
  intro output
  rcases action output with ⟨reason | value, after⟩
  · exact .halt (fun _ => rfl) ⟨"", by simp⟩
  · exact .value after (hV value)

theorem emit (text : String) :
    FollowedBy shared (fun _ _ => True) (Action.emit text : Action σ Unit) (Action.emit text) :=
  refl (fun _ => trivial) (Action.emit text)

/-- Stopping for the same reason. -/
theorem halt (reason : Halt RenderError) :
    FollowedBy shared V (Action.halt reason : Action σ α) (Action.halt reason) :=
  fun _ => .halt (fun _ => rfl) ⟨"", by simp [Action.halt]⟩

/-- Anything may be done where the first action stops, if the reason is not shared and nothing is erased. -/
theorem halt_left {reason : Halt RenderError} (hreason : ¬ shared reason) {action' : Action σ β}
    (happends : action'.Appends) : FollowedBy shared V (Action.halt reason : Action σ α) action' :=
  fun output => .halt (fun hshared => absurd hshared hreason) (happends.exists_written output)

/-- **Actions one after the other** follow others if each of them does. What the second run does after the first one has
    stopped must not erase anything. -/
theorem bind {action : Action σ α} {action' : Action σ β} {next : α → Action σ γ} {next' : β → Action σ δ}
    (h : FollowedBy shared V action action') (happends : ∀ value', (next' value').Appends)
    (hnext : ∀ value value', V value value' → FollowedBy shared W (next value) (next' value')) :
    FollowedBy shared W (action >>= next) (action' >>= next') := by
  intro output
  have hfirst := h output
  rw [bind_apply, bind_apply]
  generalize action output = first, action' output = first' at hfirst
  cases hfirst with
  | value after hvalue => exact hnext _ _ hvalue after
  | @halt reason after _ hshared hmore =>
    refine .halt (fun hreason => by rw [hshared hreason]) ?_
    obtain ⟨more, hmore⟩ := hmore
    rcases first' with ⟨reason' | value', after'⟩
    · exact ⟨more, hmore⟩
    · -- The second run goes on alone, and writes behind what both have written.
      obtain ⟨rest, hrest⟩ := (happends value').exists_written after'
      refine ⟨more ++ rest, ?_⟩
      show (next' value' after').2.written = after.written ++ (more ++ rest)
      rw [hrest, hmore, String.append_assoc]

/-- What is written to a buffer of its own is the same text if the first action ends, and is gone otherwise. -/
theorem privately {action action' : Action σ Unit} {V : Unit → Unit → Prop} (h : FollowedBy shared V action action') :
    FollowedBy shared Eq action.privately action'.privately := by
  intro output
  have hinner := h { output with written := "" }
  unfold Action.privately
  generalize action { output with written := "" } = done, action' { output with written := "" } = done' at hinner
  cases hinner with
  | value after _ => exact .value _ rfl
  | halt hshared _ =>
    refine .halt (fun hreason => by rw [hshared hreason]) ⟨"", ?_⟩
    rcases done' with ⟨reason' | ⟨⟩, inner'⟩ <;> simp

/-- Where all reasons are shared, both actions are the same. -/
theorem eq {action action' : Action σ Unit} {V : Unit → Unit → Prop}
    (h : FollowedBy (fun _ => True) V action action') : action = action' := by
  funext output
  have hend := h output
  generalize action output = done, action' output = done' at hend
  cases hend with
  | value after _ => rfl
  | halt hshared _ => exact (hshared trivial).symm

end FollowedBy

end Action

open HtmlTemplate.Action (Appends FollowedBy)

/-! ## Environments that stand in for others -/

/-- The arguments of two calls have the same names, and values that may stand in for one another. -/
def LayersAlike (V : Value → Value → Prop) (layer layer' : List (String × Value)) : Prop :=
  List.Forall₂ (fun arg arg' => arg.1 = arg'.1 ∧ V arg.2 arg'.2) layer layer'

namespace LayersAlike

variable {V : Value → Value → Prop} {layer layer' : List (String × Value)}

/-- A name is given a value in both layers or in none. -/
theorem lookup (h : LayersAlike V layer layer') (name : String) :
    Option.Rel V (layer.lookup name) (layer'.lookup name) := by
  induction h with
  | nil => exact .none
  | @cons arg arg' _ _ harg _ ih =>
    obtain ⟨key, value⟩ := arg
    obtain ⟨key', value'⟩ := arg'
    obtain ⟨rfl, hvalue⟩ := harg
    rw [List.lookup_cons, List.lookup_cons]
    by_cases hkey : (name == key) = true
    · simpa only [hkey] using Option.Rel.some hvalue
    · simpa only [hkey] using ih

theorem eq (h : LayersAlike Eq layer layer') : layer = layer' := by
  have hargs : List.Forall₂ Eq layer layer' := h.imp fun _ _ harg => Prod.ext harg.1 harg.2
  exact List.forall₂_eq_eq_eq ▸ hargs

end LayersAlike

/-- For each tree, `suits` says which environments may stand in for which, and `V` says it of values. What suits a tree
    suits its parts, a reference finds values that may stand in for one another and have the same text, and an
    environment that suits a call suits the tree that is called, once the arguments are put over it. A function of the
    host cannot tell the environments apart. -/
structure Stage.StandsIn (stage : Stage σ) (shared : Halt RenderError → Prop) (V : Value → Value → Prop)
    (suits : Node → Environment → Environment → Prop) : Prop where
  deferred : ∀ {location inner environment environment'},
    suits (.deferred location inner) environment environment' → suits inner environment environment'
  child : ∀ {location children environment environment'}, suits (.body location children) environment environment' →
    ∀ node ∈ children, suits node environment environment'
  argument : ∀ {location target name args environment environment'},
    suits (.call location target name args) environment environment' →
      ∀ arg ∈ args, suits arg.2 environment environment'
  value : ∀ {location mode path environment environment'},
    suits (.reference location mode path) environment environment' →
      (stage.valueOf location path environment).FollowedBy shared V (stage.valueOf location path environment')
  text : ∀ {value value'} (location : Location) (path : Path), V value value' →
    (Action.orFail (.notRenderable location path value.kind) value.text : Action σ String).FollowedBy shared Eq
      (Action.orFail (.notRenderable location path value'.kind) value'.text)
  string : ∀ text : String, V (.string text) (.string text)
  callee : ∀ {location target name args environment environment' tree layer layer'},
    suits (.call location target name args) environment environment' →
      stage.registry.target? target name = some (.compiled tree) → layer.map Prod.fst = args.map Prod.fst →
        LayersAlike V layer layer' → suits tree (.layer layer environment) (.layer layer' environment')
  native : ∀ {location target name args environment environment' function layer layer'},
    suits (.call location target name args) environment environment' →
      stage.registry.target? target name = some (.native function) → LayersAlike V layer layer' →
        function ⟨.layer layer environment, stage.resolver⟩ = function ⟨.layer layer' environment', stage.resolver⟩

/-! ## Values with related fields -/

section

variable {V : Value → Value → Prop} {value value' : Value} {environment environment' : Environment}

/-- A path leads on to related values, or it breaks off at the same segment. -/
theorem Resolver.walk_related (hfield : ∀ value value', V value value' → ∀ key,
      Option.Rel V (value.field? key) (value'.field? key)) (h : V value value') (path : Path) :
    (∃ inner inner', Resolver.default.walk value path = .ok inner ∧ Resolver.default.walk value' path = .ok inner' ∧
      V inner inner') ∨
    ∃ segment, Resolver.default.walk value path = .error segment ∧
      Resolver.default.walk value' path = .error segment := by
  induction path generalizing value value' with
  | nil => exact .inl ⟨value, value', rfl, rfl, h⟩
  | cons segment path ih =>
    have hnext := hfield value value' h segment
    simp only [Resolver.walk, Resolver.default]
    generalize value.field? segment = found, value'.field? segment = found' at hnext
    cases hnext with
    | none => exact .inr ⟨segment, rfl, rfl⟩
    | some hinner => exact ih hinner

/-- A path has related values if its name has, or the same segment of it is missing. -/
theorem Environment.resolve_related (hfield : ∀ value value', V value value' → ∀ key,
      Option.Rel V (value.field? key) (value'.field? key)) {path : Path}
    (h : ∀ name ∈ path.head?, Option.Rel V (environment.lookup .default name) (environment'.lookup .default name)) :
    (∃ value value', environment.resolve .default path = .ok value ∧ environment'.resolve .default path = .ok value' ∧
      V value value') ∨
    ∃ segment, environment.resolve .default path = .error segment ∧
      environment'.resolve .default path = .error segment := by
  cases path with
  | nil => exact .inr ⟨"", rfl, rfl⟩
  | cons name path =>
    have hname := h name rfl
    simp only [Environment.resolve]
    generalize environment.lookup .default name = found, environment'.lookup .default name = found' at hname
    cases hname with
    | none => exact .inr ⟨name, rfl, rfl⟩
    | some hvalue => exact Resolver.walk_related hfield hvalue path

/-- So references have related values in both environments, or fail for the same reason. -/
theorem Stage.valueOf_related {registry : Registry σ} {shared : Halt RenderError → Prop}
    (hfield : ∀ value value', V value value' → ∀ key, Option.Rel V (value.field? key) (value'.field? key))
    (location : Location) {path : Path}
    (h : ∀ name ∈ path.head?, Option.Rel V (environment.lookup .default name) (environment'.lookup .default name)) :
    ((Stage.mk registry .default).valueOf location path environment).FollowedBy shared V
      ((Stage.mk registry .default).valueOf location path environment') := by
  unfold Stage.valueOf
  rcases Environment.resolve_related hfield h with
    ⟨value, value', hresolve, hresolve', hvalue⟩ | ⟨segment, hresolve, hresolve'⟩
  · simp only [hresolve, hresolve']
    exact .pure hvalue
  · simp only [hresolve, hresolve']
    exact .halt _

end

/-! ## One tree -/

variable {stage : Stage σ} {shared : Halt RenderError → Prop} {V : Value → Value → Prop}
variable {suits : Node → Environment → Environment → Prop} {invoke invoke' : Node → Environment → Action σ Unit}

theorem Stage.StandsIn.textOf (h : stage.StandsIn shared V suits) {location : Location} {mode : RefMode} {path : Path}
    {environment environment' : Environment} (hsuits : suits (.reference location mode path) environment environment') :
    (stage.textOf location path environment).FollowedBy shared Eq (stage.textOf location path environment') := by
  unfold Stage.textOf
  apply (h.value hsuits).bind
  · intro value'
    exact Appends.orFail _ _
  · intro value value' hvalue
    exact h.text location path hvalue

theorem Template.run_appends (happends : ∀ tree environment, (invoke tree environment).Appends) (resolver : Resolver)
    (target : Binding) (template : Template σ) (environment : Environment) :
    (template.run resolver invoke target environment).Appends := by
  cases template with
  | native function => exact (Appends.onHost _).bind Appends.emit
  | compiled tree =>
    cases target with
    | internal => exact happends tree environment
    | external => exact (Appends.privately _).bind Appends.emit

namespace Node

/-- What a call has found is run with environments that stand in for one another. -/
theorem run_follows (h : stage.StandsIn shared V suits)
    (hinvoke : ∀ tree environment environment', suits tree environment environment' →
      (invoke tree environment).FollowedBy shared (fun _ _ => True) (invoke' tree environment'))
    {location : Location} {target : Binding} {name : String} {args : List (String × Node)}
    {environment environment' : Environment} (hsuits : suits (.call location target name args) environment environment')
    {template : Template σ} (hfound : stage.registry.target? target name = some template)
    {layer layer' : List (String × Value)} (hnames : layer.map Prod.fst = args.map Prod.fst)
    (hlayers : LayersAlike V layer layer') :
    (template.run stage.resolver invoke target (.layer layer environment)).FollowedBy shared (fun _ _ => True)
      (template.run stage.resolver invoke' target (.layer layer' environment')) := by
  cases template with
  | native function =>
    unfold Template.run
    dsimp only
    rw [h.native hsuits hfound hlayers]
    exact .refl (fun _ => trivial) _
  | compiled tree =>
    have htree := hinvoke tree _ _ (h.callee hsuits hfound hnames hlayers)
    cases target with
    | internal => exact htree
    | external =>
      apply htree.privately.bind Appends.emit
      rintro text _ rfl
      exact .emit text

mutual

/-- **A render follows another one** if its environment stands in for that of the other and the trees that it calls are
    followed in the same way. -/
theorem render_follows (h : stage.StandsIn shared V suits)
    (hinvoke : ∀ tree environment environment', suits tree environment environment' →
      (invoke tree environment).FollowedBy shared (fun _ _ => True) (invoke' tree environment'))
    (happends : ∀ tree environment, (invoke' tree environment).Appends) :
    ∀ (node : Node) (environment environment' : Environment), suits node environment environment' →
      (node.render stage invoke environment).FollowedBy shared (fun _ _ => True)
        (node.render stage invoke' environment')
  | literal _ text, _, _, _ => .emit text
  | reference location mode path, environment, environment', hsuits => by
    rw [render, render]
    apply (h.textOf hsuits).bind
    · intro text
      exact Appends.emit _
    · rintro text _ rfl
      exact .emit _
  | deferred _ inner, environment, environment', hsuits => by
    have hinner := render_follows h hinvoke happends inner environment environment' (h.deferred hsuits)
    rw [render, render]
    apply hinner.privately.bind Appends.emit
    rintro text _ rfl
    exact .emit text
  | call location target name args, environment, environment', hsuits => by
    have hargs := collect_follows h hinvoke happends args environment environment' (h.argument hsuits)
    rw [render_call, render_call]
    cases hfound : stage.registry.target? target name with
    | none => exact .halt _
    | some template =>
      apply hargs.bind
      · intro layer'
        exact template.run_appends happends _ _ _
      · rintro layer layer' ⟨hnames, hlayers⟩
        exact run_follows h hinvoke hsuits hfound hnames hlayers
  | body _ children, environment, environment', hsuits => by
    rw [render, render]
    exact renderAll_follows h hinvoke happends children environment environment' (h.child hsuits)

theorem renderAll_follows (h : stage.StandsIn shared V suits)
    (hinvoke : ∀ tree environment environment', suits tree environment environment' →
      (invoke tree environment).FollowedBy shared (fun _ _ => True) (invoke' tree environment'))
    (happends : ∀ tree environment, (invoke' tree environment).Appends) :
    ∀ (nodes : List Node) (environment environment' : Environment),
      (∀ node ∈ nodes, suits node environment environment') →
        (renderAll stage invoke nodes environment).FollowedBy shared (fun _ _ => True)
          (renderAll stage invoke' nodes environment')
  | [], _, _, _ => .pure trivial
  | node :: nodes, environment, environment', hsuits => by
    rw [renderAll, renderAll]
    apply (render_follows h hinvoke happends node environment environment' (hsuits node List.mem_cons_self)).bind
    · intro _
      exact renderAll_appends happends nodes environment'
    · intro _ _ _
      exact renderAll_follows h hinvoke happends nodes environment environment'
        fun other hother => hsuits other (List.mem_cons_of_mem node hother)

/-- The arguments of a call have values that may stand in for one another, under the names that the call gives. -/
theorem collect_follows (h : stage.StandsIn shared V suits)
    (hinvoke : ∀ tree environment environment', suits tree environment environment' →
      (invoke tree environment).FollowedBy shared (fun _ _ => True) (invoke' tree environment'))
    (happends : ∀ tree environment, (invoke' tree environment).Appends) :
    ∀ (args : List (String × Node)) (environment environment' : Environment),
      (∀ arg ∈ args, suits arg.2 environment environment') →
        (collect stage invoke args environment).FollowedBy shared
          (fun layer layer' => layer.map Prod.fst = args.map Prod.fst ∧ LayersAlike V layer layer')
          (collect stage invoke' args environment')
  | [], _, _, _ => .pure ⟨rfl, .nil⟩
  | (name, node) :: args, environment, environment', hsuits => by
    have hnode := hsuits (name, node) List.mem_cons_self
    have hmore := collect_follows h hinvoke happends args environment environment'
      fun arg harg => hsuits arg (List.mem_cons_of_mem _ harg)
    have happendsMore : (collect stage invoke' args environment').Appends := collect_appends happends args environment'
    have hcons : ∀ value value', V value value' →
        FollowedBy shared
          (fun layer layer' => layer.map Prod.fst = ((name, node) :: args).map Prod.fst ∧ LayersAlike V layer layer')
          (do return (name, value) :: (← collect stage invoke args environment))
          (do return (name, value') :: (← collect stage invoke' args environment')) := by
      intro value value' hvalue
      apply hmore.bind (fun _ => Appends.pure _)
      rintro layer layer' ⟨hnames, hlayers⟩
      exact .pure ⟨by simp [hnames], .cons ⟨rfl, hvalue⟩ hlayers⟩
    obtain ⟨location, path, rfl⟩ | hne := node.passed_or_ne
    · rw [collect, collect]
      exact (h.value hnode).bind (fun _ => happendsMore.bind fun _ => Appends.pure _) hcons
    · rw [collect_cons stage invoke hne, collect_cons stage invoke' hne]
      apply (render_follows h hinvoke happends node environment environment' hnode).privately.bind
      · intro text
        exact happendsMore.bind fun _ => Appends.pure _
      · rintro text _ rfl
        exact hcons _ _ (h.string text)

end

end Node

/-! ## Calls however deep -/

namespace Stage

/-- **A render with a greater bound follows** one with an environment for which its own may stand in. If being cut off
    is a shared reason, the bounds have to be the same. -/
theorem renderTree_follows (h : stage.StandsIn shared V suits) {depth depth' : Nat} (hdepth : depth ≤ depth')
    (hshared : shared .tooDeep → depth = depth') :
    ∀ tree environment environment', suits tree environment environment' →
      (stage.renderTree depth tree environment).FollowedBy shared (fun _ _ => True)
        (stage.renderTree depth' tree environment') := by
  induction depth generalizing depth' with
  | zero =>
    cases depth' with
    | zero =>
      exact Node.render_follows h (fun _ _ _ _ => .halt _) (fun _ _ => Appends.halt _)
    | succ depth' =>
      have hcut : ¬ shared .tooDeep := fun hcut => absurd (hshared hcut) (by omega)
      have happends := stage.renderTree_appends depth'
      exact Node.render_follows h (fun tree _ environment' _ => .halt_left hcut (happends tree environment')) happends
  | succ depth ih =>
    obtain ⟨depth', rfl⟩ : ∃ more, depth' = more + 1 := ⟨depth' - 1, by omega⟩
    have hinner := ih (show depth ≤ depth' by omega) fun hcut => by have := hshared hcut; omega
    exact Node.render_follows h hinner (stage.renderTree_appends depth')

/-- **A render of a template follows** one with other parameters, if these may stand in for the parameters of the
    other. -/
theorem render_follows (h : stage.StandsIn shared V suits) {depth depth' : Nat} (hdepth : depth ≤ depth')
    (hshared : shared .tooDeep → depth = depth') {name : String} {params params' : Value}
    (hcompiled : ∀ tree, stage.registry.external? name = some (.compiled tree) →
      suits tree (.params params) (.params params'))
    (hnative : ∀ function, stage.registry.external? name = some (.native function) →
      function ⟨.params params, stage.resolver⟩ = function ⟨.params params', stage.resolver⟩) :
    (stage.render depth name params).FollowedBy shared (fun _ _ => True) (stage.render depth' name params') := by
  unfold Stage.render
  cases hfound : stage.registry.external? name with
  | none => exact .halt _
  | some template =>
    cases template with
    | native function =>
      dsimp only
      rw [hnative function hfound]
      exact .refl (fun _ => trivial) _
    | compiled tree => exact renderTree_follows h hdepth hshared tree _ _ (hcompiled tree hfound)

/-! ## Bounds that are not reached -/

/-- An environment stands in for itself, whatever the tree is. -/
theorem standsIn_self (stage : Stage σ) (shared : Halt RenderError → Prop) :
    stage.StandsIn shared Eq fun _ environment environment' => environment = environment' where
  deferred h := h
  child h _ _ := h
  argument h _ _ := h
  value h := by
    subst h
    exact .refl (fun _ => rfl) _
  text location path h := by
    subst h
    exact .refl (fun _ => rfl) _
  string _ := rfl
  callee h _ _ hlayers := by rw [h, hlayers.eq]
  native h _ hlayers := by rw [h, hlayers.eq]

/-- **A bound that is not reached does not show**: with every greater one the render does the same. -/
theorem render_of_le (stage : Stage σ) {depth depth' : Nat} (hdepth : depth ≤ depth') {name : String} {params : Value}
    {output : Output σ} (hend : (stage.render depth name params output).1 ≠ .error .tooDeep) :
    stage.render depth' name params output = stage.render depth name params output := by
  have hfollows : Follows (· ≠ .tooDeep) (fun _ _ => True) (stage.render depth name params output)
      (stage.render depth' name params output) :=
    render_follows (stage.standsIn_self _) hdepth (fun h => absurd rfl h) (fun _ _ => rfl) (fun _ _ => rfl) output
  generalize stage.render depth name params output = done, stage.render depth' name params output = done'
    at hfollows hend
  cases hfollows with
  | value after _ => rfl
  | halt hshared _ => exact hshared fun hreason => hend (congrArg Except.error hreason)

end Stage

namespace Engine

/-- A render of an engine is cut off where that of its stage is. -/
theorem renderInto_eq_tooDeep {engine : Engine σ} {depth : Nat} {name : String} {params : Value} {output : Output σ} :
    (engine.renderInto depth name params output).1 = .error .tooDeep ↔
      (engine.stage.render depth name params output).1 = .error .tooDeep := by
  unfold renderInto
  rcases engine.stage.render depth name params output with ⟨⟨_ | _⟩ | ⟨⟩, after⟩
  · constructor <;> nofun
  · exact ⟨fun _ => rfl, fun _ => rfl⟩
  · constructor <;> nofun

theorem render_eq_tooDeep {engine : Engine σ} {depth : Nat} {name : String} {params : Value} {host : σ} :
    (engine.render depth name params host).1 = .error .tooDeep ↔
      (engine.renderInto depth name params ⟨"", host⟩).1 = .error .tooDeep := by
  unfold render
  rcases engine.renderInto depth name params ⟨"", host⟩ with ⟨reason | ⟨⟩, after⟩
  · exact ⟨fun h => congrArg Except.error (Except.error.inj h), fun h => congrArg Except.error (Except.error.inj h)⟩
  · constructor <;> nofun

theorem renderInto_of_le {engine : Engine σ} {depth depth' : Nat} (hdepth : depth ≤ depth') {name : String}
    {params : Value} {output : Output σ}
    (hend : (engine.renderInto depth name params output).1 ≠ .error .tooDeep) :
    engine.renderInto depth' name params output = engine.renderInto depth name params output := by
  have hstage : (engine.stage.render depth name params output).1 ≠ .error .tooDeep :=
    fun hcut => hend (renderInto_eq_tooDeep.mpr hcut)
  unfold renderInto
  rw [engine.stage.render_of_le hdepth hstage]

end Engine

end HtmlTemplate
