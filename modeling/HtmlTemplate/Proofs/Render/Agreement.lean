import HtmlTemplate.Proofs.Render.Flattened

/-!
# Two runs side by side

Statements about two runs say how the texts that both have written compare as long as both go on, and how they
compare when both have stopped. An agreement holds the relations for that. It is enough to follow the basic
actions, since actions one after the other agree if each of them does (`Action.Agrees.bind`).

An agreement can also be lenient, and then it says nothing about runs of which one has stopped. This is for
statements about renders that both succeed.

## Contents

* `Agreement`, `Agreement.Outcome` — what is compared, and two ends that compare well;
* `Action.Agrees` — two actions that keep to an agreement;
* `Action.Agrees.bind`, `.emit`, `.privately`, `.orFail_bind`, `.onHost` — the basic actions.
-/

namespace HtmlTemplate

/-- How two runs are compared. -/
structure Agreement (σ σ' : Type) where
  /-- The texts written so far, while both runs go on. -/
  text : String → String → Prop
  /-- The states of the host. -/
  host : σ → σ' → Prop
  /-- The reasons for which both runs have stopped. -/
  halt : Halt RenderError → Halt RenderError → Prop
  /-- The texts left behind when both runs have stopped. -/
  left : String → String → Prop
  /-- Nothing is said about runs of which one has stopped. -/
  lenient : Prop
  text_empty : text "" ""
  text_append : ∀ {written written' more more'}, text written written' → text more more' →
    text (written ++ more) (written' ++ more')
  left_of_text : ∀ {written written'}, text written written' → left written written'

/-- Equal texts go on equally. -/
theorem Agreement.append_eq {written written' more more' : String} (hwritten : written = written')
    (hmore : more = more') : written ++ more = written' ++ more' := by
  rw [hwritten, hmore]

variable {σ σ' α β γ δ : Type}

/-- The ends of two runs compare well: the values are related by `V` and the texts are alike, or both runs have
    stopped for like reasons. -/
def Agreement.Outcome (A : Agreement σ σ') (V : α → β → Prop) :
    Except (Halt RenderError) α × Output σ → Except (Halt RenderError) β × Output σ' → Prop
  | (.ok value, output), (.ok value', output') =>
    V value value' ∧ A.text output.written output'.written ∧ A.host output.host output'.host
  | (.error halt, output), (.error halt', output') =>
    A.lenient ∨ A.halt halt halt' ∧ A.left output.written output'.written ∧ A.host output.host output'.host
  | _, _ => A.lenient

namespace Action

/-- Started on texts and host states that are alike, the actions come to ends that compare well. -/
def Agrees (A : Agreement σ σ') (V : α → β → Prop) (action : Action σ α) (action' : Action σ' β) : Prop :=
  ∀ output output', A.text output.written output'.written → A.host output.host output'.host →
    A.Outcome V (action output) (action' output')

namespace Agrees

variable {A : Agreement σ σ'} {V : α → β → Prop} {W : γ → δ → Prop}

theorem pure {value : α} {value' : β} (h : V value value') :
    Agrees A V (Pure.pure value : Action σ α) (Pure.pure value' : Action σ' β) :=
  fun _ _ htext hhost => ⟨h, htext, hhost⟩

/-- **Actions one after the other agree** if each of them does. -/
theorem bind {action : Action σ α} {action' : Action σ' β} {next : α → Action σ γ} {next' : β → Action σ' δ}
    (h : Agrees A V action action') (hnext : ∀ value value', V value value' → Agrees A W (next value) (next' value')) :
    Agrees A W (action >>= next) (action' >>= next') := by
  intro output output' htext hhost
  have hfirst := h output output' htext hhost
  rw [bind_apply, bind_apply]
  generalize action output = first, action' output' = first' at hfirst
  rcases first with ⟨halt | value, after⟩
  · rcases first' with ⟨halt' | value', after'⟩
    · exact hfirst
    · -- The second run goes on alone.
      have hlenient : A.lenient := hfirst
      show A.Outcome W (.error halt, after) (next' value' after')
      rcases next' value' after' with ⟨_ | _, _⟩
      · exact .inl hlenient
      · exact hlenient
  · rcases first' with ⟨halt' | value', after'⟩
    · have hlenient : A.lenient := hfirst
      show A.Outcome W (next value after) (.error halt', after')
      rcases next value after with ⟨_ | _, _⟩
      · exact .inl hlenient
      · exact hlenient
    · obtain ⟨hvalue, htext', hhost'⟩ := hfirst
      exact hnext value value' hvalue after after' htext' hhost'

/-- Both stop for like reasons. -/
theorem halt {reason reason' : Halt RenderError} (h : A.halt reason reason') :
    Agrees A V (Action.halt reason) (Action.halt reason') :=
  fun _ _ htext hhost => .inr ⟨h, A.left_of_text htext, hhost⟩

/-- Where an agreement is lenient, a run that stops agrees with any other. -/
theorem of_halt_left (h : A.lenient) (reason : Halt RenderError) (action' : Action σ' β) :
    Agrees A V (Action.halt reason : Action σ α) action' := by
  intro output output' _ _
  show A.Outcome V (.error reason, output) (action' output')
  rcases action' output' with ⟨_ | _, _⟩
  · exact .inl h
  · exact h

theorem of_halt_right (h : A.lenient) (action : Action σ α) (reason : Halt RenderError) :
    Agrees A V action (Action.halt reason : Action σ' β) := by
  intro output output' _ _
  show A.Outcome V (action output) (.error reason, output')
  rcases action output with ⟨_ | _, _⟩
  · exact .inl h
  · exact h

/-- Like texts are written. -/
theorem emit {text text' : String} (h : A.text text text') :
    Agrees A (fun _ _ => True) (Action.emit text) (Action.emit text') :=
  fun _ _ htext hhost => ⟨trivial, A.text_append htext h, hhost⟩

/-- What is written on buffers of their own is alike, and the buffers in front stay so. -/
theorem privately {action : Action σ Unit} {action' : Action σ' Unit} {V : Unit → Unit → Prop}
    (h : Agrees A V action action') : Agrees A A.text action.privately action'.privately := by
  intro output output' htext hhost
  have hinner := h { output with written := "" } { output' with written := "" } A.text_empty hhost
  unfold Action.privately
  generalize action { output with written := "" } = done, action' { output' with written := "" } = done' at hinner
  rcases done with ⟨_ | ⟨⟩, inner⟩ <;> rcases done' with ⟨_ | ⟨⟩, inner'⟩
  · rcases hinner with hlenient | ⟨hhalt, -, hhost'⟩
    · exact .inl hlenient
    · exact .inr ⟨hhalt, A.left_of_text htext, hhost'⟩
  · exact hinner
  · exact hinner
  · exact ⟨hinner.2.1, htext, hinner.2.2⟩

/-- The host answers alike. -/
theorem onHost {function : σ → α × σ} {function' : σ' → β × σ'}
    (h : ∀ host host', A.host host host' →
      V (function host).1 (function' host').1 ∧ A.host (function host).2 (function' host').2) :
    Agrees A V (Action.onHost function) (Action.onHost function') := by
  intro output output' htext hhost
  obtain ⟨hvalue, hhost'⟩ := h _ _ hhost
  exact ⟨hvalue, htext, hhost'⟩

/-- Going on with what is found in both runs, or failing in both. -/
theorem orFail_bind {found : Option α} {found' : Option β} {error error' : RenderError}
    {next : α → Action σ γ} {next' : β → Action σ' δ} (hfound : Option.Rel V found found')
    (herror : A.halt (.error error) (.error error'))
    (hnext : ∀ value value', found = some value → found' = some value' → V value value' →
      Agrees A W (next value) (next' value')) :
    Agrees A W (Action.orFail error found >>= next) (Action.orFail error' found' >>= next') := by
  cases hfound with
  | none => exact halt herror
  | some hvalue => exact hnext _ _ rfl rfl hvalue

end Agrees

end Action

end HtmlTemplate
