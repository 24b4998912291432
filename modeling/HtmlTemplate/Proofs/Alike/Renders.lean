import HtmlTemplate.Proofs.Alike.Trees
import HtmlTemplate.Proofs.Render.Agreement
import HtmlTemplate.Proofs.Render.Appends
import HtmlTemplate.Proofs.Render.Calls

/-!
# Rendering trees that are alike

Two renders of trees that are alike write the same text and fail for the same reason, but for the place. A call may
look into different tables in the two trees, if what it finds there is alike. Then one render may write at once what
the other one writes to a buffer of its own first, and this makes no difference before one of them fails.

## Contents

* `RenderError.Alike`, `Halt.Alike` — errors that differ in places only;
* `Agreement.alike` — the same text up to a failure, and texts that are left behind which may differ;
* `Stage.Alike` — tables in which calls find what is alike;
* `Node.render_alike`, `Stage.renderTree_alike`, `Stage.render_alike` — one tree, calls however deep, and renders.
-/

namespace HtmlTemplate

variable {σ : Type}

/-! ## Errors -/

/-- The errors are the same, but for their places. -/
inductive RenderError.Alike (place : Location → Location → Prop) : RenderError → RenderError → Prop where
  | paramNotFound {location location' : Location} (hplace : place location location') (segment : String)
    (path : Path) : Alike place (.paramNotFound location segment path) (.paramNotFound location' segment path)
  | notDefined {location location' : Location} (hplace : place location location') (name : String) :
    Alike place (.notDefined location name) (.notDefined location' name)
  | templateNotFound (name : String) : Alike place (.templateNotFound name) (.templateNotFound name)
  | notRenderable {location location' : Location} (hplace : place location location') (path : Path)
    (kind : ValueKind) : Alike place (.notRenderable location path kind) (.notRenderable location' path kind)

/-- Both renders fail alike, or both are cut off by the bound. -/
inductive Halt.Alike (place : Location → Location → Prop) : Halt RenderError → Halt RenderError → Prop where
  | error {error error' : RenderError} (h : error.Alike place error') : Alike place (.error error) (.error error')
  | tooDeep : Alike place .tooDeep .tooDeep

/-- The texts are the same as long as both renders go on, and `left` relates what they leave behind when both have
    stopped. -/
def Agreement.alike (place : Location → Location → Prop) (left : String → String → Prop)
    (hleft : ∀ text, left text text) : Agreement σ σ where
  text := Eq
  host := Eq
  halt := Halt.Alike place
  left := left
  lenient := False
  text_empty := rfl
  text_append := @Agreement.append_eq
  left_of_text := by
    rintro written _ rfl
    exact hleft written

open HtmlTemplate.Action (Agrees Appends)

section

variable {place : Location → Location → Prop} {left : String → String → Prop} {hleft : ∀ text, left text text}

/-- What is written at once in one run is written to a buffer of its own in the other. -/
theorem Action.Agrees.privately_right {action action' : Action σ Unit}
    (h : Agrees (.alike place left hleft) (fun _ _ => True) action action') (happends : action.Appends)
    (happends' : action'.Appends) (hout : ∀ written more, left (written ++ more) written) :
    Agrees (.alike place left hleft) (fun _ _ => True) action (action'.privately >>= Action.emit) := by
  rintro ⟨written, host⟩ ⟨_, _⟩ rfl rfl
  have hend := h ⟨written, host⟩ ⟨written, host⟩ rfl rfl
  obtain ⟨more, hmore⟩ := happends.exists_written ⟨written, host⟩
  rw [happends'.privately_emit]
  generalize action ⟨written, host⟩ = done, action' ⟨written, host⟩ = done' at hend hmore
  rcases done with ⟨_ | ⟨⟩, output⟩ <;> rcases done' with ⟨_ | ⟨⟩, output'⟩
  · obtain hlenient | ⟨hhalt, -, hhost⟩ := hend
    · exact hlenient.elim
    · have hwritten : left output.written written := by
        rw [hmore]
        exact hout written more
      exact .inr ⟨hhalt, hwritten, hhost⟩
  · exact hend
  · exact hend
  · exact hend

/-- What is written to a buffer of its own in one run is written at once in the other. -/
theorem Action.Agrees.privately_left {action action' : Action σ Unit}
    (h : Agrees (.alike place left hleft) (fun _ _ => True) action action') (happends : action.Appends)
    (happends' : action'.Appends) (hin : ∀ written more, left written (written ++ more)) :
    Agrees (.alike place left hleft) (fun _ _ => True) (action.privately >>= Action.emit) action' := by
  rintro ⟨written, host⟩ ⟨_, _⟩ rfl rfl
  have hend := h ⟨written, host⟩ ⟨written, host⟩ rfl rfl
  obtain ⟨more, hmore⟩ := happends'.exists_written ⟨written, host⟩
  rw [happends.privately_emit]
  generalize action ⟨written, host⟩ = done, action' ⟨written, host⟩ = done' at hend hmore
  rcases done with ⟨_ | ⟨⟩, output⟩ <;> rcases done' with ⟨_ | ⟨⟩, output'⟩
  · obtain hlenient | ⟨hhalt, -, hhost⟩ := hend
    · exact hlenient.elim
    · have hwritten : left written output'.written := by
        rw [hmore]
        exact hin written more
      exact .inr ⟨hhalt, hwritten, hhost⟩
  · exact hend
  · exact hend
  · exact hend

end

/-! ## Tables -/

/-- The same function of the host, or trees that are alike. -/
inductive Template.Alike (place : Location → Location → Prop) (binding : String → Binding → Binding → Prop) :
    Template σ → Template σ → Prop where
  | native (function : Native σ) : Alike place binding (.native function) (.native function)
  | compiled {tree tree' : Node} (h : tree.Alike place binding tree') :
    Alike place binding (.compiled tree) (.compiled tree')

theorem Template.Alike.trans {place : Location → Location → Prop} {binding : String → Binding → Binding → Prop}
    {template template' other : Template σ} (hplace : ∀ a b c, place a b → place b c → place a c)
    (hbinding : ∀ name a b c, binding name a b → binding name b c → binding name a c)
    (h : template.Alike place binding template') (h' : template'.Alike place binding other) :
    template.Alike place binding other := by
  cases h with
  | native function => exact h'
  | compiled htree =>
    cases h' with
    | compiled htree' => exact .compiled (htree.trans hplace hbinding htree')

/-- Calls that may stand for one another find what is alike, and where one of them writes at once and the other does
    not, `left` allows for what a failure leaves behind. -/
structure Stage.Alike (place : Location → Location → Prop) (binding : String → Binding → Binding → Prop)
    (left : String → String → Prop) (stage stage' : Stage σ) : Prop where
  resolver : stage.resolver = stage'.resolver
  target : ∀ name target target', binding name target target' →
    Option.Rel (Template.Alike place binding) (stage.registry.target? target name)
      (stage'.registry.target? target' name)
  external : ∀ name, binding name .external .external
  out : ∀ name, binding name .internal .external → ∀ written more, left (written ++ more) written
  inward : ∀ name, binding name .external .internal → ∀ written more, left written (written ++ more)

variable {place : Location → Location → Prop} {binding : String → Binding → Binding → Prop}
variable {left : String → String → Prop} {hleft : ∀ text, left text text} {stage stage' : Stage σ}

/-! ## Both renders -/

theorem Stage.valueOf_alike (hresolver : stage.resolver = stage'.resolver) {location location' : Location}
    (hplace : place location location') (path : Path) (environment : Environment) :
    Agrees (.alike place left hleft) Eq (stage.valueOf location path environment)
      (stage'.valueOf location' path environment) := by
  unfold Stage.valueOf
  rw [hresolver]
  cases environment.resolve stage'.resolver path with
  | ok value => exact .pure rfl
  | error segment => exact .halt (.error (.paramNotFound hplace segment path))

theorem Stage.textOf_alike (hresolver : stage.resolver = stage'.resolver) {location location' : Location}
    (hplace : place location location') (path : Path) (environment : Environment) :
    Agrees (.alike place left hleft) Eq (stage.textOf location path environment)
      (stage'.textOf location' path environment) := by
  unfold Stage.textOf
  apply (Stage.valueOf_alike hresolver hplace path environment).bind
  rintro value _ rfl
  cases value.text with
  | none => exact .halt (.error (.notRenderable hplace path value.kind))
  | some text => exact .pure rfl

/-- A function of the host answers the same in both runs. -/
theorem Native.agrees_alike (function : Native σ) (hresolver : stage.resolver = stage'.resolver)
    (environment : Environment) :
    Agrees (.alike place left hleft) (fun _ _ => True)
      (Action.onHost (function ⟨environment, stage.resolver⟩) >>= Action.emit)
      (Action.onHost (function ⟨environment, stage'.resolver⟩) >>= Action.emit) := by
  have hanswer : Agrees (.alike place left hleft) Eq (Action.onHost (function ⟨environment, stage.resolver⟩))
      (Action.onHost (function ⟨environment, stage'.resolver⟩)) := by
    rw [hresolver]
    apply Agrees.onHost
    rintro host _ rfl
    exact ⟨rfl, rfl⟩
  apply hanswer.bind
  intro text text' htext
  exact .emit htext

/-- How the trees of called templates are rendered in two runs. -/
structure InvokesAlike (place : Location → Location → Prop) (binding : String → Binding → Binding → Prop)
    (left : String → String → Prop) (hleft : ∀ text, left text text)
    (invoke invoke' : Node → Environment → Action σ Unit) : Prop where
  agrees : ∀ tree tree' environment, tree.Alike place binding tree' →
    Agrees (.alike place left hleft) (fun _ _ => True) (invoke tree environment) (invoke' tree' environment)
  appends : ∀ tree environment, (invoke tree environment).Appends
  appends' : ∀ tree environment, (invoke' tree environment).Appends

variable {invoke invoke' : Node → Environment → Action σ Unit}

/-- What two calls have found does the same, whether it writes at once or not. -/
theorem Template.run_alike (hstage : stage.Alike place binding left stage')
    (hinvoke : InvokesAlike place binding left hleft invoke invoke') {name : String} {target target' : Binding}
    (hbinding : binding name target target') {template template' : Template σ}
    (h : template.Alike place binding template') (environment : Environment) :
    Agrees (.alike place left hleft) (fun _ _ => True) (template.run stage.resolver invoke target environment)
      (template'.run stage'.resolver invoke' target' environment) := by
  cases h with
  | native function => exact function.agrees_alike hstage.resolver environment
  | @compiled tree tree' htree =>
    have hagrees := hinvoke.agrees tree tree' environment htree
    have happends := hinvoke.appends tree environment
    have happends' := hinvoke.appends' tree' environment
    cases target with
    | internal =>
      cases target' with
      | internal => exact hagrees
      | external => exact hagrees.privately_right happends happends' (hstage.out name hbinding)
    | external =>
      cases target' with
      | internal => exact hagrees.privately_left happends happends' (hstage.inward name hbinding)
      | external =>
        apply hagrees.privately.bind
        intro text text' htext
        exact .emit htext

namespace Node

mutual

/-- **Trees that are alike do the same**, if the trees that they call do. -/
theorem render_alike (hstage : stage.Alike place binding left stage')
    (hinvoke : InvokesAlike place binding left hleft invoke invoke') :
    ∀ (node node' : Node) (environment : Environment), node.Alike place binding node' →
      Agrees (.alike place left hleft) (fun _ _ => True) (node.render stage invoke environment)
        (node'.render stage' invoke' environment)
  | literal _ text, _, environment, h => by
    cases h with
    | literal _ _ => exact .emit rfl
  | reference _ mode path, _, environment, h => by
    cases h with
    | reference hplace _ _ =>
      rw [render, render]
      apply (Stage.textOf_alike hstage.resolver hplace path environment).bind
      rintro text _ rfl
      exact .emit rfl
  | deferred _ inner, _, environment, h => by
    cases h with
    | deferred _ hinner =>
      rw [render, render]
      apply (render_alike hstage hinvoke inner _ environment hinner).privately.bind
      intro text text' htext
      exact .emit htext
  | call _ target name args, _, environment, h => by
    cases h with
    | call hplace _ hbinding hargs =>
      have herror : Halt.Alike place (.error (.notDefined _ name)) (.error (.notDefined _ name)) :=
        .error (.notDefined hplace name)
      rw [render_call, render_call]
      apply Agrees.orFail_bind (hstage.target _ _ _ hbinding) herror
      intro template template' _ _ htemplate
      apply (collect_alike hstage hinvoke args _ environment hargs).bind
      rintro layer _ rfl
      exact Template.run_alike hstage hinvoke hbinding htemplate _
  | body _ children, _, environment, h => by
    cases h with
    | body _ hchildren =>
      rw [render, render]
      exact renderAll_alike hstage hinvoke children _ environment hchildren

theorem renderAll_alike (hstage : stage.Alike place binding left stage')
    (hinvoke : InvokesAlike place binding left hleft invoke invoke') :
    ∀ (nodes nodes' : List Node) (environment : Environment), List.Forall₂ (Node.Alike place binding) nodes nodes' →
      Agrees (.alike place left hleft) (fun _ _ => True) (renderAll stage invoke nodes environment)
        (renderAll stage' invoke' nodes' environment)
  | [], _, _, h => by
    cases h with
    | nil => exact .pure trivial
  | node :: nodes, _, environment, h => by
    cases h with
    | cons hnode hnodes =>
      rw [renderAll, renderAll]
      apply (render_alike hstage hinvoke node _ environment hnode).bind
      intro _ _ _
      exact renderAll_alike hstage hinvoke nodes _ environment hnodes

/-- Arguments that are alike have the same values. -/
theorem collect_alike (hstage : stage.Alike place binding left stage')
    (hinvoke : InvokesAlike place binding left hleft invoke invoke') :
    ∀ (args args' : List (String × Node)) (environment : Environment),
      List.Forall₂ (ArgAlike place binding) args args' →
        Agrees (.alike place left hleft) Eq (collect stage invoke args environment)
          (collect stage' invoke' args' environment)
  | [], _, _, h => by
    cases h with
    | nil => exact .pure rfl
  | (name, node) :: args, _, environment, h => by
    cases h with
    | @cons _ arg' _ args' harg hargs =>
      have hmore := collect_alike hstage hinvoke args args' environment hargs
      cases harg with
      | @arg _ _ node' hnode =>
        obtain ⟨location, path, rfl⟩ | hne := node.passed_or_ne
        · cases hnode with
          | reference hplace _ _ =>
            rw [collect, collect]
            apply (Stage.valueOf_alike hstage.resolver hplace path environment).bind
            rintro value _ rfl
            apply hmore.bind
            rintro layer _ rfl
            exact .pure rfl
        · have hne' : ∀ location path, node' ≠ reference location .passed path := by
            rintro location path rfl
            cases hnode with
            | reference _ _ _ => exact hne _ _ rfl
          rw [collect_cons stage invoke hne, collect_cons stage' invoke' hne']
          apply (render_alike hstage hinvoke node node' environment hnode).privately.bind
          rintro text _ rfl
          apply hmore.bind
          rintro layer _ rfl
          exact .pure rfl

end

end Node

namespace Stage

/-- **Trees that are alike do the same**, calls being nested up to the same bound. -/
theorem renderTree_alike (hstage : stage.Alike place binding left stage') (depth : Nat) :
    ∀ tree tree' environment, tree.Alike place binding tree' →
      Agrees (.alike place left hleft) (fun _ _ => True) (stage.renderTree depth tree environment)
        (stage'.renderTree depth tree' environment) := by
  induction depth with
  | zero =>
    intro tree tree' environment h
    have htooDeep : InvokesAlike place binding left hleft (fun _ _ => (Action.halt .tooDeep : Action σ Unit))
        (fun _ _ => Action.halt .tooDeep) :=
      ⟨fun _ _ _ _ => .halt .tooDeep, fun _ _ => .halt .tooDeep, fun _ _ => .halt .tooDeep⟩
    exact Node.render_alike hstage htooDeep tree tree' environment h
  | succ depth ih =>
    intro tree tree' environment h
    have hinvoke : InvokesAlike place binding left hleft (stage.renderTree depth) (stage'.renderTree depth) :=
      ⟨ih, stage.renderTree_appends depth, stage'.renderTree_appends depth⟩
    exact Node.render_alike hstage hinvoke tree tree' environment h

/-- **Renders of a template do the same** where the tables hold what is alike. -/
theorem render_alike (hstage : stage.Alike place binding left stage') (depth : Nat) (name : String) (params : Value) :
    Agrees (.alike place left hleft) (fun _ _ => True) (stage.render depth name params)
      (stage'.render depth name params) := by
  have hfound : Option.Rel (Template.Alike place binding) (stage.registry.external? name)
      (stage'.registry.external? name) := hstage.target name .external .external (hstage.external name)
  unfold Stage.render
  generalize stage.registry.external? name = found, stage'.registry.external? name = found' at hfound
  cases hfound with
  | none => exact .halt (.error (.templateNotFound name))
  | some htemplate =>
    cases htemplate with
    | native function => exact function.agrees_alike hstage.resolver _
    | compiled htree => exact renderTree_alike hstage depth _ _ _ htree

end Stage

end HtmlTemplate
