import HtmlTemplate.Render.Evaluate
import HtmlTemplate.Tree.Flatten

/-!
# Rendering a flattened tree

Flattening moves the children of inner bodies up and joins literals, so a tree and its flattened form are
the same action: they write the same text, fail with the same error at the same place behind the same
partial text, and call the host in the same order (`Node.render_flatten`). A call goes on with whatever the
tables hold, so the statement for whole renders is about two stages whose tables hold *forms* of the same
trees, each of them flattened or not (`Stage.render_forms`).

## Contents

* the laws of sequencing actions;
* `Node.render_flatten`, `Node.collect_flatten` — one tree, with the rendering of calls as a parameter;
* `Node.Forms`, `Stage.Forms` — trees, and stages with their trees, up to flattening;
* `Stage.renderTree_forms`, `Stage.render_forms` — renders on two such stages.
-/

namespace HtmlTemplate

/-! ## Actions -/

namespace Action

variable {σ α β γ : Type}

theorem bind_assoc (action : Action σ α) (next : α → Action σ β) (last : β → Action σ γ) :
    action >>= next >>= last = action >>= fun value => next value >>= last := by
  funext output
  rw [bind_apply, bind_apply, bind_apply]
  rcases action output with ⟨_ | value, output⟩
  · rfl
  · rfl

@[simp] theorem pure_bind (value : α) (next : α → Action σ β) : pure value >>= next = next value := rfl

@[simp] theorem orFail_some (error : RenderError) (value : α) :
    (orFail error (some value) : Action σ α) = pure value := rfl

@[simp] theorem bind_pure_unit (action : Action σ Unit) : (action >>= fun _ => pure ()) = action := by
  funext output
  rw [bind_apply]
  rcases action output with ⟨_ | ⟨⟩, output⟩ <;> rfl

/-- Two texts are written one after the other as their concatenation is. -/
theorem emit_append (text more : String) :
    (emit (text ++ more) : Action σ Unit) = emit text >>= fun _ => emit more := by
  funext output
  rw [bind_apply]
  simp only [emit, String.append_assoc]

end Action

/-! ## One tree -/

namespace Node

variable {σ : Type} (stage : Stage σ) (invoke : Node → Environment → Action σ Unit)

theorem renderAll_append (nodes more : List Node) (environment : Environment) :
    renderAll stage invoke (nodes ++ more) environment =
      renderAll stage invoke nodes environment >>= fun _ => renderAll stage invoke more environment := by
  induction nodes with
  | nil => rfl
  | cons node nodes ih => rw [List.cons_append, renderAll, renderAll, ih, Action.bind_assoc]

theorem renderAll_mergeLiterals (nodes : List Node) (environment : Environment) :
    renderAll stage invoke (mergeLiterals nodes) environment =
      renderAll stage invoke nodes environment := by
  fun_induction mergeLiterals nodes with
  | case1 => rfl
  | case2 location text nodes _ more rest hmerged ih =>
    rw [hmerged] at ih
    rw [renderAll, renderAll, ← ih, renderAll, render, render, render, Action.emit_append,
      Action.bind_assoc]
  | case3 location text nodes _ ih => rw [renderAll, renderAll, ih]
  | case4 node nodes _ ih => rw [renderAll, renderAll, ih]

/-- What stands for a node among the children of a body renders as the node. -/
theorem renderAll_splice (node : Node) (environment : Environment) :
    renderAll stage invoke node.splice environment = node.render stage invoke environment := by
  cases node with
  | body location children => rw [splice, render]
  | _ => exact Action.bind_pure_unit _

/-- Flattening keeps a passed reference. -/
@[simp] theorem flatten_reference (location : Location) (mode : RefMode) (path : Path) :
    (reference location mode path).flatten = reference location mode path := by
  rw [flatten]

/-- Arguments are of two kinds: passed references, whose values are taken, and trees that are rendered to text. -/
theorem passed_or_ne (node : Node) : (∃ location path, node = reference location .passed path) ∨
    ∀ location path, node ≠ reference location .passed path := by
  by_cases hpassed : ∃ location path, node = reference location .passed path
  · exact .inl hpassed
  · exact .inr fun location path heq => hpassed ⟨location, path, heq⟩

/-- A tree that is no passed reference is rendered to text when it is an argument. -/
theorem collect_cons {node : Node} (h : ∀ location path, node ≠ reference location .passed path)
    (name : String) (args : List (String × Node)) (environment : Environment) :
    collect stage invoke ((name, node) :: args) environment =
      (do
        let text ← .privately (node.render stage invoke environment)
        return (name, .string text) :: (← collect stage invoke args environment)) := by
  cases node with
  | reference location mode path =>
    cases mode with
    | passed => exact absurd rfl (h location path)
    | raw | escaped => rw [collect]; simp
  | _ => rw [collect]; simp

theorem flatten_ne_passed {node : Node} (h : ∀ location path, node ≠ reference location .passed path) :
    ∀ location path, node.flatten ≠ reference location .passed path := by
  intro location path
  cases node with
  | reference location' mode path' => rw [flatten_reference]; exact h location path
  | _ => rw [flatten]; exact nofun

mutual

/-- **A tree and its flattened form are the same action.** -/
theorem render_flatten : ∀ (node : Node) (environment : Environment),
    node.flatten.render stage invoke environment = node.render stage invoke environment
  | literal _ _, _ => by rw [flatten]
  | reference _ _ _, _ => by rw [flatten]
  | deferred _ inner, environment => by rw [flatten, render, render, render_flatten inner]
  | call _ .internal name args, environment => by
    rw [flatten, render, render]
    simp only [collect_flatten args]
  | call _ .external name args, environment => by
    rw [flatten, render, render]
    simp only [collect_flatten args]
  | body _ children, environment => by
    rw [flatten, render, render, renderAll_mergeLiterals, renderAll_flattenAll children]

theorem renderAll_flattenAll : ∀ (nodes : List Node) (environment : Environment),
    renderAll stage invoke (flattenAll nodes) environment = renderAll stage invoke nodes environment
  | [], _ => by rw [flattenAll]
  | node :: nodes, environment => by
    rw [flattenAll, renderAll, renderAll_append, renderAll_splice, render_flatten node,
      renderAll_flattenAll nodes]

theorem collect_flatten : ∀ (args : List (String × Node)) (environment : Environment),
    collect stage invoke (flattenArgs args) environment = collect stage invoke args environment
  | [], _ => by rw [flattenArgs]
  | (name, node) :: args, environment => by
    rw [flattenArgs]
    obtain ⟨location, path, rfl⟩ | hne := node.passed_or_ne
    · rw [flatten_reference, collect, collect, collect_flatten args]
    · rw [collect_cons stage invoke (flatten_ne_passed hne), collect_cons stage invoke hne,
        render_flatten node, collect_flatten args]

end

/-! ## Forms of a tree -/

/-- The two trees are forms of one tree, each of them flattened or not. -/
def Forms (tree tree' : Node) : Prop :=
  ∃ origin : Node, (tree = origin ∨ tree = origin.flatten) ∧ (tree' = origin ∨ tree' = origin.flatten)

/-- The forms that two engines store when they are given the same tree. -/
theorem Forms.of_choice (tree : Node) (optimize optimize' : Bool) :
    Forms (if optimize then tree.flatten else tree) (if optimize' then tree.flatten else tree) := by
  refine ⟨tree, ?_, ?_⟩
  · cases optimize
    · exact .inl rfl
    · exact .inr rfl
  · cases optimize'
    · exact .inl rfl
    · exact .inr rfl

/-- Forms of one tree are the same action, as long as calls are rendered in the same way. -/
theorem Forms.render {tree tree' : Node} (h : Forms tree tree') (environment : Environment) :
    tree.render stage invoke environment = tree'.render stage invoke environment := by
  obtain ⟨origin, ht, ht'⟩ := h
  have hform : ∀ t : Node, t = origin ∨ t = origin.flatten →
      t.render stage invoke environment = origin.render stage invoke environment := by
    rintro t (rfl | rfl)
    · rfl
    · exact render_flatten stage invoke origin environment
  rw [hform tree ht, hform tree' ht']

end Node

/-- Two entries of the external table that are the same function, or forms of one tree. -/
inductive Template.Forms {σ : Type} : Template σ → Template σ → Prop where
  | native (function : Native σ) : Forms (.native function) (.native function)
  | compiled {tree tree' : Node} (h : Node.Forms tree tree') : Forms (.compiled tree) (.compiled tree')

/-- The tables hold forms of the same trees, and the same functions of the host. -/
structure Registry.Forms {σ : Type} (registry registry' : Registry σ) : Prop where
  internal : ∀ name, Option.Rel Node.Forms (registry.internal? name) (registry'.internal? name)
  external : ∀ name, Option.Rel Template.Forms (registry.external? name) (registry'.external? name)

/-- Two stages that differ only in which of their trees are flattened. -/
structure Stage.Forms {σ : Type} (stage stage' : Stage σ) : Prop where
  registry : stage.registry.Forms stage'.registry
  resolver : stage.resolver = stage'.resolver

/-! ## Renders on stages with forms of the same trees -/

variable {σ : Type} {stage stage' : Stage σ}

namespace Node

variable {invoke invoke' : Node → Environment → Action σ Unit}

mutual

/-- One tree is the same action on both stages, if forms of one tree are when they are called. -/
theorem render_congr (hstage : stage.Forms stage')
    (hinvoke : ∀ tree tree', Forms tree tree' → ∀ environment, invoke tree environment = invoke' tree' environment) :
    ∀ (node : Node) (environment : Environment),
      node.render stage invoke environment = node.render stage' invoke' environment
  | literal _ _, _ => rfl
  | reference _ _ _, _ => by rw [render, render]; simp only [Stage.textOf, Stage.valueOf, hstage.resolver]
  | deferred _ inner, environment => by rw [render, render, render_congr hstage hinvoke inner]
  | call location .internal name args, environment => by
    rw [render, render, collect_congr hstage hinvoke args]
    have hfound := hstage.registry.internal name
    generalize stage.registry.internal? name = found, stage'.registry.internal? name = found' at hfound ⊢
    cases hfound with
    | none => rfl
    | some hforms =>
      rw [Action.orFail_some, Action.orFail_some, Action.pure_bind, Action.pure_bind]
      exact bind_congr fun layer => hinvoke _ _ hforms _
  | call location .external name args, environment => by
    rw [render, render, collect_congr hstage hinvoke args, hstage.resolver]
    have hfound := hstage.registry.external name
    generalize stage.registry.external? name = found, stage'.registry.external? name = found' at hfound ⊢
    cases hfound with
    | none => rfl
    | some hforms =>
      rw [Action.orFail_some, Action.orFail_some, Action.pure_bind, Action.pure_bind]
      refine bind_congr fun layer => ?_
      cases hforms with
      | native function => rfl
      | compiled htree => simp only [hinvoke _ _ htree]
  | body _ children, environment => by rw [render, render, renderAll_congr hstage hinvoke children]

theorem renderAll_congr (hstage : stage.Forms stage')
    (hinvoke : ∀ tree tree', Forms tree tree' → ∀ environment, invoke tree environment = invoke' tree' environment) :
    ∀ (nodes : List Node) (environment : Environment),
      renderAll stage invoke nodes environment = renderAll stage' invoke' nodes environment
  | [], _ => rfl
  | node :: nodes, environment => by
    rw [renderAll, renderAll, render_congr hstage hinvoke node, renderAll_congr hstage hinvoke nodes]

theorem collect_congr (hstage : stage.Forms stage')
    (hinvoke : ∀ tree tree', Forms tree tree' → ∀ environment, invoke tree environment = invoke' tree' environment) :
    ∀ (args : List (String × Node)) (environment : Environment),
      collect stage invoke args environment = collect stage' invoke' args environment
  | [], _ => rfl
  | (name, node) :: args, environment => by
    obtain ⟨location, path, rfl⟩ | hne := node.passed_or_ne
    · rw [collect, collect, collect_congr hstage hinvoke args]
      simp only [Stage.valueOf, hstage.resolver]
    · rw [collect_cons stage invoke hne, collect_cons stage' invoke' hne, render_congr hstage hinvoke node,
        collect_congr hstage hinvoke args]

end

end Node

namespace Stage

/-- **Forms of one tree are the same action** on two stages that differ only in which of their trees are
    flattened, however deep the calls are nested. -/
theorem renderTree_forms (hstage : stage.Forms stage') (depth : Nat) :
    ∀ tree tree' : Node, Node.Forms tree tree' → ∀ environment,
      stage.renderTree depth tree environment = stage'.renderTree depth tree' environment := by
  induction depth with
  | zero =>
    intro tree tree' htree environment
    rw [renderTree, renderTree, htree.render stage]
    exact Node.render_congr hstage (fun _ _ _ _ => rfl) tree' environment
  | succ depth ih =>
    intro tree tree' htree environment
    rw [renderTree, renderTree, htree.render stage]
    exact Node.render_congr hstage ih tree' environment

/-- **A render is the same action** on two stages that differ only in which of their trees are flattened. -/
theorem render_forms (hstage : stage.Forms stage') (depth : Nat) (name : String) (params : Value) :
    stage.render depth name params = stage'.render depth name params := by
  rw [render, render, hstage.resolver]
  have hfound := hstage.registry.external name
  generalize stage.registry.external? name = found, stage'.registry.external? name = found' at hfound ⊢
  cases hfound with
  | none => rfl
  | some hforms =>
    cases hforms with
    | native function => rfl
    | compiled htree => exact renderTree_forms hstage depth _ _ htree _

end Stage

end HtmlTemplate
