import HtmlTemplate.Proofs.Render.Flattened

/-!
# Renders only append

A render reads nothing of what has been written before it, and writes behind that. What it does can be told from what
it does on an empty buffer. So a text of its own that is written afterwards differs from one that is written at once
in nothing but what a failure leaves behind (`Action.Appends.privately_emit`).

## Contents

* `Action.Appends` — an action that reads nothing of the buffer and appends to it;
* `Action.Appends.bind`, `.privately`, `.privately_emit` — how it comes about and what it is good for;
* `Node.render_appends`, `Stage.render_appends` — renders.
-/

namespace HtmlTemplate

variable {σ α β : Type}

namespace Action

/-- The action does what it does on an empty buffer, behind what has been written. -/
def Appends (action : Action σ α) : Prop :=
  ∀ written host, action ⟨written, host⟩ =
    ((action ⟨"", host⟩).1, ⟨written ++ (action ⟨"", host⟩).2.written, (action ⟨"", host⟩).2.host⟩)

namespace Appends

theorem pure (value : α) : Appends (Pure.pure value : Action σ α) := by
  intro written host
  simp

theorem halt (reason : Halt RenderError) : Appends (Action.halt reason : Action σ α) := by
  intro written host
  simp [Action.halt]

theorem emit (text : String) : Appends (Action.emit text : Action σ Unit) := by
  intro written host
  simp [Action.emit]

/-- A buffer of its own is empty at first, whatever was written before. -/
theorem privately (action : Action σ Unit) : action.privately.Appends := by
  intro written host
  unfold Action.privately
  dsimp only
  rcases action ⟨"", host⟩ with ⟨_ | ⟨⟩, inner⟩ <;> simp

theorem onHost (function : σ → α × σ) : (Action.onHost function).Appends := by
  intro written host
  simp [Action.onHost]

theorem orFail (error : RenderError) (found : Option α) : (Action.orFail error found : Action σ α).Appends := by
  cases found with
  | none => exact halt (.error error)
  | some value => exact pure value

/-- Actions one after the other append if each of them does. -/
theorem bind {action : Action σ α} {next : α → Action σ β} (h : action.Appends) (hnext : ∀ value, (next value).Appends) :
    (action >>= next).Appends := by
  intro written host
  have hfirst := h written host
  rw [bind_apply, bind_apply, hfirst]
  rcases action ⟨"", host⟩ with ⟨halt | value, ⟨text, host'⟩⟩
  · rfl
  · dsimp only
    rw [hnext value (written ++ text) host', hnext value text host']
    simp only [String.append_assoc]

/-- **Writing to a buffer of its own and then writing that** is writing at once, but what was written is gone if
    it fails. -/
theorem privately_emit {action : Action σ Unit} (h : action.Appends) (output : Output σ) :
    (action.privately >>= Action.emit) output =
      match action output with
      | (.ok (), after) => (.ok (), after)
      | (.error halt, after) => (.error halt, { after with written := output.written }) := by
  obtain ⟨written, host⟩ := output
  rw [h written host, bind_apply]
  unfold Action.privately
  dsimp only
  rcases action ⟨"", host⟩ with ⟨_ | ⟨⟩, inner⟩ <;> rfl

/-- What has been written stays in front. -/
theorem exists_written {action : Action σ α} (h : action.Appends) (output : Output σ) :
    ∃ more, (action output).2.written = output.written ++ more := by
  obtain ⟨written, host⟩ := output
  rw [h written host]
  exact ⟨_, rfl⟩

end Appends

end Action

open HtmlTemplate.Action (Appends)

theorem Stage.valueOf_appends (stage : Stage σ) (location : Location) (path : Path) (environment : Environment) :
    (stage.valueOf location path environment).Appends := by
  unfold Stage.valueOf
  cases environment.resolve stage.resolver path with
  | ok value => exact .pure value
  | error segment => exact .halt _

theorem Stage.textOf_appends (stage : Stage σ) (location : Location) (path : Path) (environment : Environment) :
    (stage.textOf location path environment).Appends := by
  unfold Stage.textOf
  apply (stage.valueOf_appends location path environment).bind
  intro value
  exact .orFail _ _

namespace Node

variable {stage : Stage σ} {invoke : Node → Environment → Action σ Unit}

mutual

/-- A tree appends, if the trees that it calls do. -/
theorem render_appends (hinvoke : ∀ tree environment, (invoke tree environment).Appends) :
    ∀ (node : Node) (environment : Environment), (node.render stage invoke environment).Appends
  | literal _ text, _ => by
    rw [render]
    exact .emit text
  | reference location mode path, environment => by
    rw [render]
    apply (stage.textOf_appends location path environment).bind
    intro text
    exact .emit _
  | deferred _ inner, environment => by
    rw [render]
    apply (Appends.privately _).bind
    intro text
    exact .emit text
  | call location .internal name args, environment => by
    rw [render]
    apply (Appends.orFail _ _).bind
    intro tree
    apply (collect_appends hinvoke args environment).bind
    intro layer
    exact hinvoke tree _
  | call location .external name args, environment => by
    rw [render]
    apply (Appends.orFail _ _).bind
    intro template
    apply (collect_appends hinvoke args environment).bind
    intro layer
    cases template with
    | native function => exact (Appends.onHost _).bind Appends.emit
    | compiled tree => exact (Appends.privately _).bind Appends.emit
  | body _ children, environment => by
    rw [render]
    exact renderAll_appends hinvoke children environment

theorem renderAll_appends (hinvoke : ∀ tree environment, (invoke tree environment).Appends) :
    ∀ (nodes : List Node) (environment : Environment), (renderAll stage invoke nodes environment).Appends
  | [], _ => by
    rw [renderAll]
    exact .pure ()
  | node :: nodes, environment => by
    rw [renderAll]
    apply (render_appends hinvoke node environment).bind
    intro _
    exact renderAll_appends hinvoke nodes environment

theorem collect_appends (hinvoke : ∀ tree environment, (invoke tree environment).Appends) :
    ∀ (args : List (String × Node)) (environment : Environment), (collect stage invoke args environment).Appends
  | [], _ => by
    rw [collect]
    exact .pure []
  | (name, node) :: args, environment => by
    have hmore := collect_appends hinvoke args environment
    obtain ⟨location, path, rfl⟩ | hne := node.passed_or_ne
    · rw [collect]
      apply (stage.valueOf_appends location path environment).bind
      intro value
      apply hmore.bind
      intro layer
      exact .pure _
    · rw [collect_cons stage invoke hne]
      apply (Appends.privately _).bind
      intro text
      apply hmore.bind
      intro layer
      exact .pure _

end

end Node

namespace Stage

theorem renderTree_appends (stage : Stage σ) (depth : Nat) :
    ∀ (tree : Node) (environment : Environment), (stage.renderTree depth tree environment).Appends := by
  induction depth with
  | zero =>
    intro tree environment
    exact Node.render_appends (fun _ _ => .halt .tooDeep) tree environment
  | succ depth ih =>
    intro tree environment
    exact Node.render_appends ih tree environment

/-- **Renders append** to what has been written. -/
theorem render_appends (stage : Stage σ) (depth : Nat) (name : String) (params : Value) :
    (stage.render depth name params).Appends := by
  unfold Stage.render
  cases stage.registry.external? name with
  | none => exact .halt _
  | some template =>
    cases template with
    | native function => exact (Appends.onHost _).bind Appends.emit
    | compiled tree => exact stage.renderTree_appends depth tree _

end Stage

end HtmlTemplate
