import HtmlTemplate.Proofs.Render.Leftover
import HtmlTemplate.Proofs.Session.Completed
import HtmlTemplate.Proofs.Tree.WellFormed

/-!
# What is never rendered in place

Passed references and deferred trees are values of arguments. A render also has answers for them where they stand in
place, and for paths without a segment, but it never needs them if the trees are well formed. To say this, the answers
are taken out of the render and made a parameter (`Node.renderOr`). With the usual answers this is how trees are
rendered (`Node.renderOr_usual`), and a well-formed tree is rendered like this whatever the answers are
(`Node.Built.renderOr_eq`, `Stage.renderTreeOr_eq`), were they to write something else or to stop the render.

## Contents

* `Misuse` — what is done about nodes that are not where they belong, and about empty paths;
* `Node.renderOr`, `Node.evaluateOr`, `Stage.renderTreeOr` — rendering with other answers;
* `Node.renderOr_usual` — the usual answers;
* `Node.Built.renderOr_eq`, `Stage.renderTreeOr_eq` — well-formed trees do not depend on them.
-/

namespace HtmlTemplate

variable {σ : Type}

/-- What is done about the two things that do not happen while well-formed trees are rendered. -/
structure Misuse (σ : Type) where
  /-- Renders a passed reference or a deferred tree that is not the value of an argument. -/
  inPlace : Node → Environment → Action σ Unit
  /-- Answers a path without a segment. -/
  emptyPath : Location → Environment → Action σ Value

/-! ## Rendering with other answers -/

/-- The value of a reference in a tree. -/
def Stage.valueOr (misuse : Misuse σ) (stage : Stage σ) (location : Location) (path : Path)
    (environment : Environment) : Action σ Value :=
  match path with
  | [] => misuse.emptyPath location environment
  | segment :: path => stage.valueOf location (segment :: path) environment

namespace Node

section

variable (misuse : Misuse σ) (stage : Stage σ) (invoke : Node → Environment → Action σ Unit)

mutual

/-- Renders a tree with the given answers. -/
def renderOr : Node → Environment → Action σ Unit
  | literal _ text, _ => .emit text
  | reference location mode path, environment =>
    match mode with
    | .passed => misuse.inPlace (reference location .passed path) environment
    | .raw | .escaped => do
      let value ← stage.valueOr misuse location path environment
      let text ← .orFail (.notRenderable location path value.kind) value.text
      .emit (mode.emitted text)
  | deferred location inner, environment => misuse.inPlace (deferred location inner) environment
  | call location target name args, environment => do
    let template ← .orFail (.notDefined location name) (stage.registry.target? target name)
    let layer ← collectOr args environment
    template.run stage.resolver invoke target (.layer layer environment)
  | body _ children, environment => renderAllOr children environment

def renderAllOr : List Node → Environment → Action σ Unit
  | [], _ => pure ()
  | node :: nodes, environment => do
    node.renderOr environment
    renderAllOr nodes environment

/-- Evaluates the arguments of a call. Here passed references and deferred trees are where they belong. -/
def collectOr : List (String × Node) → Environment → Action σ (List (String × Value))
  | [], _ => pure []
  | (name, reference location .passed path) :: args, environment => do
    let value ← stage.valueOr misuse location path environment
    return (name, value) :: (← collectOr args environment)
  | (name, deferred _ inner) :: args, environment => do
    let text ← .privately do
      .emit (← .privately (inner.renderOr environment))
    return (name, .string text) :: (← collectOr args environment)
  | (name, node) :: args, environment => do
    let text ← .privately (node.renderOr environment)
    return (name, .string text) :: (← collectOr args environment)

end

/-- The value of one argument. -/
def evaluateOr : Node → Environment → Action σ Value
  | reference location .passed path, environment => stage.valueOr misuse location path environment
  | deferred _ inner, environment => do
    let text ← .privately do
      .emit (← .privately (inner.renderOr misuse stage invoke environment))
    return .string text
  | node, environment => do
    return .string (← .privately (node.renderOr misuse stage invoke environment))

end

end Node

/-- Renders a tree with the given answers. No more than `depth` calls may be nested in one another. -/
def Stage.renderTreeOr (misuse : Misuse σ) (stage : Stage σ) : (depth : Nat) → Node → Environment → Action σ Unit
  | 0 => Node.renderOr misuse stage fun _ _ => .halt .tooDeep
  | depth + 1 => Node.renderOr misuse stage (stage.renderTreeOr misuse depth)

namespace Node

variable {misuse : Misuse σ} {stage : Stage σ} {invoke invoke' : Node → Environment → Action σ Unit}

/-- The values of arguments are found one after the other. -/
theorem collectOr_cons (name : String) (node : Node) (args : List (String × Node)) (environment : Environment) :
    collectOr misuse stage invoke ((name, node) :: args) environment =
      (do
        let value ← node.evaluateOr misuse stage invoke environment
        return (name, value) :: (← collectOr misuse stage invoke args environment)) := by
  cases node with
  | reference location mode path =>
    cases mode with
    | passed => rw [collectOr, evaluateOr]
    | raw | escaped => rw [collectOr, evaluateOr, Action.bind_assoc] <;> first | rfl | exact nofun
  | deferred location inner => rw [collectOr, evaluateOr, Action.bind_assoc]; rfl
  | literal | call | body => rw [collectOr, evaluateOr, Action.bind_assoc] <;> first | rfl | exact nofun

/-! ## Parts of a tree -/

theorem renderAllOr_eq {nodes : List Node}
    (h : ∀ node ∈ nodes, ∀ environment,
      node.renderOr misuse stage invoke' environment = node.render stage invoke environment) (environment : Environment) :
    renderAllOr misuse stage invoke' nodes environment = renderAll stage invoke nodes environment := by
  induction nodes with
  | nil => rw [renderAllOr, renderAll]
  | cons node nodes ih =>
    obtain ⟨hnode, hnodes⟩ := List.forall_mem_cons.mp h
    rw [renderAllOr, renderAll, hnode, ih hnodes]

theorem collectOr_eq {args : List (String × Node)}
    (h : ∀ arg ∈ args, ∀ environment,
      arg.2.evaluateOr misuse stage invoke' environment = arg.2.evaluate stage invoke environment)
    (environment : Environment) :
    collectOr misuse stage invoke' args environment = collect stage invoke args environment := by
  induction args with
  | nil => rw [collectOr, collect]
  | cons arg args ih =>
    obtain ⟨name, node⟩ := arg
    obtain ⟨hnode, hargs⟩ := List.forall_mem_cons.mp h
    rw [collectOr_cons, collect_cons_eq, hnode, ih hargs]

/-- Calls with like arguments are alike if what they can find in the tables is. -/
theorem renderOr_call_eq (hinvoke : ∀ name tree, stage.registry.Holds name tree → invoke' tree = invoke tree)
    {args : List (String × Node)} {environment : Environment}
    (hargs : collectOr misuse stage invoke' args environment = collect stage invoke args environment)
    (location : Location) (target : Binding) (name : String) :
    (call location target name args).renderOr misuse stage invoke' environment =
      (call location target name args).render stage invoke environment := by
  rw [renderOr, render_call, hargs]
  cases hfound : stage.registry.target? target name with
  | none => rfl
  | some template =>
    rw [Action.orFail_some, Action.pure_bind, Action.pure_bind]
    refine bind_congr fun layer => ?_
    cases template with
    | native function => rfl
    | compiled tree =>
      have hcallee := hinvoke name tree (Registry.holds_of_target? hfound)
      cases target with
      | internal => rw [Template.run, Template.run, hcallee]
      | external => rw [Template.run, Template.run, hcallee]

theorem renderOr_reference_eq {mode : RefMode} (hmode : mode ≠ .passed) {location : Location} {path : Path}
    {environment : Environment}
    (hvalue : stage.valueOr misuse location path environment = stage.valueOf location path environment) :
    (reference location mode path).renderOr misuse stage invoke' environment =
      (reference location mode path).render stage invoke environment := by
  cases mode with
  | passed => exact absurd rfl hmode
  | raw | escaped =>
    rw [renderOr, render, Stage.textOf, Action.bind_assoc, hvalue]

/-- Any other tree is rendered to text when it is an argument. -/
theorem evaluateOr_eq_of_renderOr_eq {node : Node} (hnode : node.isArgument = false) {environment : Environment}
    (h : node.renderOr misuse stage invoke' environment = node.render stage invoke environment) :
    node.evaluateOr misuse stage invoke' environment = node.evaluate stage invoke environment := by
  cases node with
  | deferred location inner => cases hnode
  | reference location mode path =>
    cases mode with
    | passed => cases hnode
    | raw | escaped =>
      unfold evaluateOr evaluate
      dsimp only
      rw [h]
  | literal | call | body =>
    unfold evaluateOr evaluate
    dsimp only
    rw [h]

theorem evaluateOr_deferred_eq {inner : Node} {environment : Environment}
    (h : inner.renderOr misuse stage invoke' environment = inner.render stage invoke environment) (location : Location) :
    (deferred location inner).evaluateOr misuse stage invoke' environment =
      (deferred location inner).evaluate stage invoke environment := by
  unfold evaluateOr evaluate
  dsimp only
  rw [h, render]

end Node

/-! ## The usual answers -/

section

variable {stage : Stage σ} {invoke : Node → Environment → Action σ Unit}

variable (stage invoke) in
/-- What a render does about passed references and deferred trees in place, and about empty paths. -/
def Misuse.usual : Misuse σ where
  inPlace node := node.render stage invoke
  emptyPath location := stage.valueOf location []

theorem Stage.valueOr_usual (location : Location) (path : Path) (environment : Environment) :
    stage.valueOr (.usual stage invoke) location path environment = stage.valueOf location path environment := by
  cases path with
  | nil => rfl
  | cons segment path => rfl

/-- **With the usual answers a tree is rendered as it always is**, in place and as the value of an argument. -/
theorem Node.renderOr_usual (node : Node) (environment : Environment) :
    node.renderOr (.usual stage invoke) stage invoke environment = node.render stage invoke environment ∧
      node.evaluateOr (.usual stage invoke) stage invoke environment = node.evaluate stage invoke environment := by
  induction node using Node.inductionOn generalizing environment with
  | literal location text => exact ⟨rfl, rfl⟩
  | reference location mode path =>
    have hvalue : stage.valueOr (.usual stage invoke) location path environment = stage.valueOf location path environment :=
      Stage.valueOr_usual location path environment
    by_cases hmode : mode = .passed
    · subst hmode
      exact ⟨rfl, hvalue⟩
    · have hrender : (reference location mode path).renderOr (.usual stage invoke) stage invoke environment =
          (reference location mode path).render stage invoke environment := renderOr_reference_eq hmode hvalue
      exact ⟨hrender, evaluateOr_eq_of_renderOr_eq (isArgument_reference hmode location path) hrender⟩
  | deferred location inner ih => exact ⟨rfl, evaluateOr_deferred_eq (ih environment).1 location⟩
  | call location target name args ih =>
    have hargs := collectOr_eq (fun arg harg environment => (ih arg harg environment).2) environment
    have hrender := renderOr_call_eq (fun _ _ _ => rfl) hargs location target name
    exact ⟨hrender, evaluateOr_eq_of_renderOr_eq rfl hrender⟩
  | body location children ih =>
    have hrender : (body location children).renderOr (.usual stage invoke) stage invoke environment =
        (body location children).render stage invoke environment :=
      renderAllOr_eq (fun child hchild environment => (ih child hchild environment).1) environment
    exact ⟨hrender, evaluateOr_eq_of_renderOr_eq rfl hrender⟩

end

/-! ## Well-formed trees -/

namespace Node.Built

variable {isInternal : String → Bool} {file : Nat} {asArgument : Bool} {tree : Node} {misuse : Misuse σ}
  {stage : Stage σ} {invoke invoke' : Node → Environment → Action σ Unit}

theorem valueOr_eq {path : Path} (hpath : path.IsProper) (location : Location) (environment : Environment) :
    stage.valueOr misuse location path environment = stage.valueOf location path environment := by
  cases path with
  | nil => exact absurd rfl hpath.nonempty
  | cons segment path => rfl

/-- Both kinds of trees are rendered as they always are, each where it belongs. -/
theorem renderOr_or_evaluateOr_eq
    (hinvoke : ∀ name tree, stage.registry.Holds name tree → invoke' tree = invoke tree)
    (h : Built isInternal file asArgument tree) (environment : Environment) :
    (asArgument = false →
        tree.renderOr misuse stage invoke' environment = tree.render stage invoke environment) ∧
      (asArgument = true →
        tree.evaluateOr misuse stage invoke' environment = tree.evaluate stage invoke environment) := by
  -- The judgment says of each subtree where it stands, so only one of the two halves is ever needed of it.
  induction h generalizing environment with
  | literal hfile text => exact ⟨fun _ => rfl, nofun⟩
  | emitted hfile hmode hpath =>
    exact ⟨fun _ => renderOr_reference_eq hmode (valueOr_eq hpath _ environment), nofun⟩
  | passed hfile hpath => exact ⟨nofun, fun _ => valueOr_eq hpath _ environment⟩
  | deferred hfile _ ih => exact ⟨nofun, fun _ => evaluateOr_deferred_eq ((ih environment).1 rfl) _⟩
  | call hfile htarget hnames _ ih =>
    have hargs := collectOr_eq (fun arg harg environment => (ih arg harg environment).2 rfl) environment
    exact ⟨fun _ => renderOr_call_eq hinvoke hargs _ _ _, nofun⟩
  | body hfile _ ih =>
    exact ⟨fun _ => renderAllOr_eq (fun child hchild environment => (ih child hchild environment).1 rfl) environment, nofun⟩

/-- **A well-formed tree does not depend on the answers**, however the trees that it calls are rendered. -/
theorem renderOr_eq (h : Built isInternal file false tree) (misuse : Misuse σ) (stage : Stage σ)
    (invoke : Node → Environment → Action σ Unit) (environment : Environment) :
    tree.renderOr misuse stage invoke environment = tree.render stage invoke environment :=
  (h.renderOr_or_evaluateOr_eq (fun _ _ _ => rfl) environment).1 rfl

end Node.Built

/-- **Well-formed trees that call well-formed trees** do not depend on the answers, however deep the calls are nested. -/
theorem Stage.renderTreeOr_eq {stage : Stage σ}
    (hregistry : stage.registry.Every fun tree => ∃ isInternal file, Node.Built isInternal file false tree)
    (misuse : Misuse σ) (depth : Nat) {isInternal : String → Bool} {file : Nat} {tree : Node}
    (h : Node.Built isInternal file false tree) (environment : Environment) :
    stage.renderTreeOr misuse depth tree environment = stage.renderTree depth tree environment := by
  induction depth generalizing isInternal file tree environment with
  | zero => exact h.renderOr_eq misuse stage _ environment
  | succ depth ih =>
    -- What is called comes out of the tables, so it is well formed, and one call less is left for it.
    refine (h.renderOr_or_evaluateOr_eq (fun name callee hcallee => ?_) environment).1 rfl
    obtain ⟨_, _, hbuilt⟩ := hregistry name callee hcallee
    exact funext (ih hbuilt)

end HtmlTemplate
