import HtmlTemplate.Render.Action
import HtmlTemplate.Render.Registry
import HtmlTemplate.Text.Entity

/-!
# Rendering trees

A tree is rendered by walking it and writing to a buffer. An internal call goes on writing to the same
buffer; an external call, a deferred argument and any argument that is rendered to text write to a buffer of
their own, so that nothing of them remains if they fail.

The walk follows the tree; only calls leave it. How a call's tree is rendered is a parameter of the walk
(`Node.render`), and the knot is tied by counting nested calls (`Registry.renderTree`).

## Contents

* `Stage` — the tables and the resolver that a render works with;
* `Node.render`, `Node.collect` — a tree, and the arguments of a call;
* `Stage.renderTree` — a tree whose calls are nested no deeper than a bound;
* `Stage.render` — a template by its name.
-/

namespace HtmlTemplate

/-- What a render works with. -/
structure Stage (σ : Type) where
  registry : Registry σ
  resolver : Resolver

namespace Stage

variable {σ : Type} (stage : Stage σ)

/-- The value of a reference in a tree. -/
def valueOf (location : Location) (path : Path) (environment : Environment) : Action σ Value :=
  match environment.resolve stage.resolver path with
  | .ok value => pure value
  | .error segment => .fail (.paramNotFound location segment path)

/-- The text of a reference in a tree. -/
def textOf (location : Location) (path : Path) (environment : Environment) : Action σ String := do
  let value ← stage.valueOf location path environment
  .orFail (.notRenderable location path value.kind) value.text

end Stage

/-- What is emitted for the text of a reference. -/
def RefMode.emitted : RefMode → String → String
  | .escaped, text => escapeHtml text
  | .raw, text | .passed, text => text

namespace Node

variable {σ : Type} (stage : Stage σ) (invoke : Node → Environment → Action σ Unit)

mutual

/-- Renders a tree, `invoke` being how the tree of a called template is rendered. -/
def render : Node → Environment → Action σ Unit
  | literal _ text, _ => .emit text
  | reference location mode path, environment => do
    .emit (mode.emitted (← stage.textOf location path environment))
  | deferred _ inner, environment => do
    .emit (← .privately (inner.render environment))
  | call location .internal name args, environment => do
    -- The target is looked up before the arguments are evaluated.
    let tree ← .orFail (.notDefined location name) (stage.registry.internal? name)
    let layer ← collect args environment
    invoke tree (.layer layer environment)
  | call location .external name args, environment => do
    let template ← .orFail (.notDefined location name) (stage.registry.external? name)
    let layer ← collect args environment
    match template with
    | .native function =>
      .emit (← .onHost (function ⟨.layer layer environment, stage.resolver⟩))
    | .compiled tree => .emit (← .privately (invoke tree (.layer layer environment)))
  | body _ children, environment => renderAll children environment

/-- Renders some trees one after the other. -/
def renderAll : List Node → Environment → Action σ Unit
  | [], _ => pure ()
  | node :: nodes, environment => do
    node.render environment
    renderAll nodes environment

/-- Evaluates the arguments of a call in the environment of the caller. A passed reference is the value
    itself, and any other tree is the text that it renders to. -/
def collect : List (String × Node) → Environment → Action σ (List (String × Value))
  | [], _ => pure []
  | (name, reference location .passed path) :: args, environment => do
    let value ← stage.valueOf location path environment
    return (name, value) :: (← collect args environment)
  | (name, node) :: args, environment => do
    let text ← .privately (node.render environment)
    return (name, .string text) :: (← collect args environment)

end

end Node

namespace Stage

variable {σ : Type} (stage : Stage σ)

/-- Renders a tree. No more than `depth` calls may be nested in one another. -/
def renderTree : (depth : Nat) → Node → Environment → Action σ Unit
  | 0 => Node.render stage fun _ _ => .halt .tooDeep
  | depth + 1 => Node.render stage (renderTree depth)

/-- Renders the template `name` with the given parameters. -/
def render (depth : Nat) (name : String) (params : Value) : Action σ Unit :=
  match stage.registry.external? name with
  | some (.compiled tree) => stage.renderTree depth tree (.params params)
  | some (.native function) => do
    .emit (← .onHost (function ⟨.params params, stage.resolver⟩))
  | none => .fail (.templateNotFound name)

end Stage

end HtmlTemplate
