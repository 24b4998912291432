import HtmlTemplate.Render.Error

/-!
# Rendering actions

An action writes to a buffer, may change the state `σ` of the host, and ends with a value or stops. What was
written before an action stopped stays written.

## Contents

* `Halt` — why an action stopped;
* `Output`, `Action` — buffer and host state, and the actions on them, sequenced as a monad;
* `Action.emit`, `Action.halt`, `Action.privately`, `Action.onHost` — the basic actions.
-/

namespace HtmlTemplate

/-- Why an action stopped: an error, or calls nested deeper than the bound that was given. -/
inductive Halt (ε : Type) where
  | error (error : ε)
  | tooDeep
deriving DecidableEq, Inhabited

/-- The text written so far and the state of the host. -/
structure Output (σ : Type) where
  written : String
  host : σ
deriving DecidableEq

/-- An action that ends with an `α`. -/
def Action (σ α : Type) : Type := Output σ → Except (Halt RenderError) α × Output σ

namespace Action

variable {σ α β : Type}

/-- Does one action, and the next one unless the first stopped. -/
def andThen (action : Action σ α) (next : α → Action σ β) : Action σ β := fun output =>
  match action output with
  | (.ok value, output) => next value output
  | (.error halt, output) => (.error halt, output)

instance : Monad (Action σ) where
  pure value := fun output => (.ok value, output)
  bind := andThen

@[simp] theorem pure_apply (value : α) (output : Output σ) :
    (pure value : Action σ α) output = (.ok value, output) := rfl

theorem bind_apply (action : Action σ α) (next : α → Action σ β) (output : Output σ) :
    (action >>= next) output =
      match action output with
      | (.ok value, output) => next value output
      | (.error halt, output) => (.error halt, output) := rfl

/-- Writes a text. -/
def emit (text : String) : Action σ Unit := fun output =>
  (.ok (), { output with written := output.written ++ text })

/-- Stops. -/
def halt (reason : Halt RenderError) : Action σ α := fun output => (.error reason, output)

/-- Stops with an error. -/
def fail (error : RenderError) : Action σ α := halt (.error error)

/-- Does an action on a buffer of its own and ends with what was written there. If the action stops, that
    text is lost. -/
def privately (action : Action σ Unit) : Action σ String := fun output =>
  match action { output with written := "" } with
  | (.ok (), inner) => (.ok inner.written, { inner with written := output.written })
  | (.error halt, inner) => (.error halt, { inner with written := output.written })

/-- Lets the host compute a value from its state. -/
def onHost (function : σ → α × σ) : Action σ α := fun output =>
  let (value, host) := function output.host
  (.ok value, { output with host })

/-- Ends with the value of an option, or stops with an error if there is none. -/
def orFail (error : RenderError) : Option α → Action σ α
  | none => fail error
  | some value => pure value

end Action

end HtmlTemplate
