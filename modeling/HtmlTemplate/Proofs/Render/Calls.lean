import HtmlTemplate.Render.Evaluate

/-!
# Calls

Both kinds of calls do the same but for the table that they look into, and for the buffer that a called template writes
to. So a call that fails before it runs anything has found nothing in its table.

## Contents

* `Registry.target?`, `Template.run`, `Node.render_call` — what both kinds of calls have in common;
* `CallSite`, `Node.calls` — the calls of a tree.
-/

namespace HtmlTemplate

variable {σ : Type}

/-! ## Both kinds of calls -/

/-- What a call finds in the table that it looks into. -/
def Registry.target? (registry : Registry σ) : Binding → String → Option (Template σ)
  | .internal, name => (registry.internal? name).map .compiled
  | .external, name => registry.external? name

/-- Renders what a call has found. A template that is called from outside writes to a buffer of its own. -/
def Template.run (resolver : Resolver) (invoke : Node → Environment → Action σ Unit) (target : Binding) :
    Template σ → Environment → Action σ Unit
  | .native function, environment => do
    .emit (← .onHost (function ⟨environment, resolver⟩))
  | .compiled tree, environment =>
    match target with
    | .internal => invoke tree environment
    | .external => do
      .emit (← .privately (invoke tree environment))

/-- Both kinds of calls look up what to run, evaluate the arguments, and run it. -/
theorem Node.render_call (stage : Stage σ) (invoke : Node → Environment → Action σ Unit) (location : Location)
    (target : Binding) (name : String) (args : List (String × Node)) (environment : Environment) :
    (Node.call location target name args).render stage invoke environment =
      (do
        let template ← .orFail (.notDefined location name) (stage.registry.target? target name)
        let layer ← collect stage invoke args environment
        template.run stage.resolver invoke target (.layer layer environment)) := by
  cases target with
  | internal =>
    rw [render, Registry.target?]
    cases stage.registry.internal? name with
    | none => rfl
    | some tree => rfl
  | external =>
    rw [render, Registry.target?]
    cases stage.registry.external? name with
    | none => rfl
    | some template => cases template <;> rfl

/-! ## The calls of a tree -/

/-- A call as it stands in a tree: its place, the table it looks into, and the name it looks for there. -/
structure CallSite where
  place : Location
  target : Binding
  name : String
deriving DecidableEq

namespace Node

mutual

/-- The calls of a tree, those in arguments of calls included. -/
def calls : Node → List CallSite
  | literal _ _ | reference _ _ _ => []
  | deferred _ inner => inner.calls
  | call place target name args => ⟨place, target, name⟩ :: callsArgs args
  | body _ children => callsAll children

def callsAll : List Node → List CallSite
  | [] => []
  | node :: nodes => node.calls ++ callsAll nodes

def callsArgs : List (String × Node) → List CallSite
  | [] => []
  | (_, node) :: args => node.calls ++ callsArgs args

end

end Node

end HtmlTemplate
