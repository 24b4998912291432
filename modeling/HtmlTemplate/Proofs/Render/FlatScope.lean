import HtmlTemplate.Host.Functions
import HtmlTemplate.Proofs.Render.Agreement
import HtmlTemplate.Proofs.Session.Completed
import HtmlTemplate.Proofs.Session.Optimization

/-!
# Scopes as flat maps

A template sees the arguments of its call and, under names that have none, all that its caller sees. An environment
is a chain of such layers that is searched from the innermost one on. Here the same is said without layers: the
parameters that a template sees are one map, and a call evaluates its arguments in the map of the caller, copies that
map, overwrites it with the arguments, and renders its target with the copy.

With the default resolver both come to the same: texts, errors, and what is left behind by a failure
(`Stage.render_eq_renderFlat`). Functions of the host can only ask for the values of names and paths and for texts,
and every such question is answered from the flat map. That the names of the arguments of a call are distinct is
needed: of two values for a name a layer shows the first, and overwriting keeps the last.

## Contents

* `Parameters`, `Parameters.resolve` — flat maps, and the value of a path in one;
* `Node.renderFlat`, `Registry.renderFlat` — rendering with flat maps;
* `Arguments.AnswersFrom`, `Native.OnlyAsks` — the questions of functions of the host;
* `Environment.Shows` — an environment that shows what a flat map does, and the layers over it;
* `Registry.AnswersLike` — tables that differ only in functions of the host that answer alike;
* `Node.render_flat`, `Stage.renderTree_flat` — one tree, and calls however deep;
* `Registry.logged`, `Ledger.Flattens` — functions that record what they are called with;
* `Stage.render_eq_renderFlat` — the main statement.
-/

namespace HtmlTemplate

variable {σ : Type}

/-! ## Rendering with flat maps -/

/-- The parameters that a template sees, in one map. Under each name only the first entry is seen. -/
abbrev Parameters : Type := List (String × Value)

namespace Parameters

/-- The value of a path: the value of the name that it begins with, followed along the other segments. The first
    segment that is missing is the error. -/
def resolve (params : Parameters) : Path → Except String Value
  | [] => .error ""
  | name :: path =>
    match params.lookup name with
    | none => .error name
    | some value => Resolver.default.walk value path

/-- The value of a reference. -/
def valueOf (location : Location) (path : Path) (params : Parameters) : Action σ Value :=
  match params.resolve path with
  | .ok value => pure value
  | .error segment => .fail (.paramNotFound location segment path)

/-- The text of a reference. -/
def textOf (location : Location) (path : Path) (params : Parameters) : Action σ String := do
  let value ← params.valueOf location path
  .orFail (.notRenderable location path value.kind) value.text

end Parameters

/-- The arguments of a function of the host that sees all parameters in one map. -/
def Arguments.ofMap (params : Parameters) : Arguments := ⟨.params (.map params), .default⟩

namespace Node

variable (registry : Registry σ) (invoke : Node → Parameters → Action σ Unit)

mutual

/-- Renders a tree with the parameters `params`, `invoke` being how the tree of a called template is rendered. -/
def renderFlat : Node → Parameters → Action σ Unit
  | literal _ text, _ => .emit text
  | reference location mode path, params => do
    .emit (mode.emitted (← params.textOf location path))
  | deferred _ inner, params => do
    .emit (← .privately (inner.renderFlat params))
  | call location .internal name args, params => do
    let tree ← .orFail (.notDefined location name) (registry.internal? name)
    let values ← collectFlat args params
    invoke tree (setArguments params values)
  | call location .external name args, params => do
    let template ← .orFail (.notDefined location name) (registry.external? name)
    let values ← collectFlat args params
    match template with
    | .native function => .emit (← .onHost (function (.ofMap (setArguments params values))))
    | .compiled tree => .emit (← .privately (invoke tree (setArguments params values)))
  | body _ children, params => renderAllFlat children params

/-- Renders some trees one after the other. -/
def renderAllFlat : List Node → Parameters → Action σ Unit
  | [], _ => pure ()
  | node :: nodes, params => do
    node.renderFlat params
    renderAllFlat nodes params

/-- Evaluates the arguments of a call with the parameters of the caller. -/
def collectFlat : List (String × Node) → Parameters → Action σ (List (String × Value))
  | [], _ => pure []
  | (name, reference location .passed path) :: args, params => do
    let value ← params.valueOf location path
    return (name, value) :: (← collectFlat args params)
  | (name, node) :: args, params => do
    let text ← .privately (node.renderFlat params)
    return (name, .string text) :: (← collectFlat args params)

end

/-- A tree that is no passed reference is rendered to text when it is an argument. -/
theorem collectFlat_cons {node : Node} (h : ∀ location path, node ≠ reference location .passed path)
    (name : String) (args : List (String × Node)) (params : Parameters) :
    collectFlat registry invoke ((name, node) :: args) params =
      (do
        let text ← .privately (node.renderFlat registry invoke params)
        return (name, .string text) :: (← collectFlat registry invoke args params)) := by
  cases node with
  | reference location mode path =>
    cases mode with
    | passed => exact absurd rfl (h location path)
    | raw | escaped => rw [collectFlat]; simp
  | _ => rw [collectFlat]; simp

end Node

namespace Registry

/-- Renders a tree. No more than `depth` calls may be nested in one another. -/
def renderTreeFlat (registry : Registry σ) : (depth : Nat) → Node → Parameters → Action σ Unit
  | 0 => Node.renderFlat registry fun _ _ => .halt .tooDeep
  | depth + 1 => Node.renderFlat registry (registry.renderTreeFlat depth)

/-- Renders the template `name` with the given parameters. -/
def renderFlat (registry : Registry σ) (depth : Nat) (name : String) (params : Parameters) : Action σ Unit :=
  match registry.external? name with
  | some (.compiled tree) => registry.renderTreeFlat depth tree params
  | some (.native function) => do
    .emit (← .onHost (function (.ofMap params)))
  | none => .fail (.templateNotFound name)

end Registry

/-! ## Trees whose calls have distinct argument names -/

namespace Node

mutual

/-- Whether no call in the tree gives two arguments of one name. -/
def distinctNames : Node → Bool
  | literal _ _ => true
  | deferred _ inner => inner.distinctNames
  | reference _ _ _ => true
  | call _ _ _ args => (args.map Prod.fst).Nodup && distinctNamesArgs args
  | body _ children => distinctNamesAll children

def distinctNamesAll : List Node → Bool
  | [] => true
  | node :: nodes => node.distinctNames && distinctNamesAll nodes

def distinctNamesArgs : List (String × Node) → Bool
  | [] => true
  | (_, node) :: args => node.distinctNames && distinctNamesArgs args

end

end Node

/-! ## The questions of functions of the host -/

/-- All questions about the arguments are answered from a flat map. -/
structure Arguments.AnswersFrom (args : Arguments) (params : Parameters) : Prop where
  get : ∀ name, args.get name = params.lookup name
  getPath : ∀ path, args.getPath path = (params.resolve path).toOption
  getText : ∀ name, args.getText name = (params.lookup name).bind Value.text

/-- A function that only asks its arguments for the values of names and paths, and for texts. -/
def Native.OnlyAsks (function : Native σ) : Prop :=
  ∀ args args' : Arguments, (∀ name, args.get name = args'.get name) →
    (∀ path, args.getPath path = args'.getPath path) → (∀ name, args.getText name = args'.getText name) →
      function args = function args'

theorem Arguments.answersFrom_ofMap (params : Parameters) : (Arguments.ofMap params).AnswersFrom params where
  get _ := rfl
  getPath path := by
    cases path with
    | nil => rfl
    | cons name path => rfl
  getText _ := rfl

/-- A function that only asks cannot tell a flat map from anything else that answers like it. -/
theorem Native.OnlyAsks.eq {function : Native σ} (h : function.OnlyAsks) {args : Arguments} {params : Parameters}
    (hargs : args.AnswersFrom params) : function args = function (.ofMap params) := by
  have hmap := Arguments.answersFrom_ofMap params
  apply h
  · intro name
    rw [hargs.get, hmap.get]
  · intro path
    rw [hargs.getPath, hmap.getPath]
  · intro name
    rw [hargs.getText, hmap.getText]

/-! ## Environments that show a flat map -/

theorem lookup_cons_eq_ite {α : Type} (name other : String) (value : α) (args : List (String × α)) :
    ((name, value) :: args).lookup other = if other = name then some value else args.lookup other := by
  rw [List.lookup_cons]
  by_cases h : other = name
  · simp [h]
  · simp [h, beq_eq_false_iff_ne.mpr h]

theorem lookup_setArgument {α : Type} (name other : String) (value : α) (args : List (String × α)) :
    (setArgument name value args).lookup other = if other = name then some value else args.lookup other := by
  induction args with
  | nil => exact lookup_cons_eq_ite name other value []
  | cons arg args ih =>
    obtain ⟨key, old⟩ := arg
    rw [setArgument]
    by_cases hkey : key = name
    · rw [if_pos hkey, hkey, lookup_cons_eq_ite, lookup_cons_eq_ite]
      by_cases h : other = name <;> simp [h]
    · rw [if_neg hkey, lookup_cons_eq_ite, lookup_cons_eq_ite, ih]
      by_cases h : other = key
      · have hne : other ≠ name := by rwa [h]
        rw [if_pos h, if_neg hne, if_pos h]
      · rw [if_neg h, if_neg h]

/-- Overwriting shows the new value of each name that has one, and the old value of every other. -/
theorem lookup_setArguments {α : Type} (args : List (String × α)) {values : List (String × α)}
    (hnodup : (values.map Prod.fst).Nodup) (name : String) :
    (setArguments args values).lookup name = (values.lookup name).or (args.lookup name) := by
  induction values generalizing args with
  | nil => rfl
  | cons arg values ih =>
    obtain ⟨key, value⟩ := arg
    rw [List.map_cons, List.nodup_cons] at hnodup
    have hmore := ih (setArgument key value args) hnodup.2
    rw [setArguments, List.foldl_cons, ← setArguments, hmore, lookup_setArgument, lookup_cons_eq_ite]
    by_cases hname : name = key
    · -- The name is not given another value later on.
      have hlater : values.lookup name = none := by
        rw [List.lookup_eq_none_iff]
        rintro ⟨other, later⟩ hmem
        rw [bne_iff_ne]
        rintro rfl
        have hkey : name ∈ values.map Prod.fst := List.mem_map_of_mem (f := Prod.fst) hmem
        exact hnodup.1 (hname ▸ hkey)
      rw [if_pos hname, if_pos hname, hlater]
      rfl
    · rw [if_neg hname, if_neg hname]

/-- The environment has the values of a flat map. -/
def Environment.Shows (environment : Environment) (params : Parameters) : Prop :=
  ∀ name, environment.lookup .default name = params.lookup name

namespace Environment.Shows

variable {environment : Environment} {params : Parameters}

theorem ofMap (params : Parameters) : (Environment.params (.map params)).Shows params := fun _ => rfl

/-- **A layer over an environment shows the map overwritten** with the arguments in the layer. -/
theorem layer (h : environment.Shows params) {values : List (String × Value)}
    (hnodup : (values.map Prod.fst).Nodup) :
    (Environment.layer values environment).Shows (setArguments params values) := by
  intro name
  rw [lookup_layer, lookup_setArguments params hnodup, h name]

theorem resolve (h : environment.Shows params) (path : Path) :
    environment.resolve .default path = params.resolve path := by
  cases path with
  | nil => rfl
  | cons name path =>
    have hname := h name
    rw [Environment.resolve, Parameters.resolve]
    generalize environment.lookup .default name = found, params.lookup name = found' at hname ⊢
    subst hname
    cases found with
    | none => rfl
    | some value => rfl

theorem answersFrom (h : environment.Shows params) : (Arguments.mk environment .default).AnswersFrom params where
  get name := h name
  getPath path := by
    show (environment.resolve .default path).toOption = _
    rw [h.resolve]
  getText name := by
    show (environment.lookup .default name).bind Value.text = _
    rw [h name]

end Environment.Shows

/-! ## Both renders -/

/-- Both runs do the same, with states of the host that are related. -/
def Agreement.same {σ σ' : Type} (host : σ → σ' → Prop) : Agreement σ σ' where
  text := Eq
  host := host
  halt := Eq
  left := Eq
  lenient := False
  text_empty := rfl
  text_append := @Agreement.append_eq
  left_of_text := id

/-- What runs that do the same come to, apart from the states of the host. -/
theorem Agreement.Outcome.same_eq {σ σ' : Type} {host : σ → σ' → Prop} {V : Unit → Unit → Prop}
    {done : Except (Halt RenderError) Unit × Output σ} {done' : Except (Halt RenderError) Unit × Output σ'}
    (h : (Agreement.same host).Outcome V done done') :
    done.1 = done'.1 ∧ done.2.written = done'.2.written ∧ host done.2.host done'.2.host := by
  rcases done with ⟨halt | value, output⟩ <;> rcases done' with ⟨halt' | value', output'⟩
  · obtain hlenient | ⟨hhalt, hwritten, hhost⟩ := h
    · exact hlenient.elim
    · exact ⟨congrArg Except.error hhalt, hwritten, hhost⟩
  · exact h.elim
  · exact h.elim
  · exact ⟨rfl, h.2⟩

open HtmlTemplate.Action (Agrees)

variable {σ' : Type} {registry : Registry σ} {registry' : Registry σ'} {related : σ → σ' → Prop}

/-- Called with arguments and with a flat map that answers like them, in related states of the host, the functions
    answer alike. -/
def Native.AnswersLike (related : σ → σ' → Prop) (function : Native σ) (function' : Native σ') : Prop :=
  ∀ args params, args.AnswersFrom params → ∀ host host', related host host' →
    (function args host).1 = (function' (.ofMap params) host').1 ∧
      related (function args host).2 (function' (.ofMap params) host').2

/-- The same tree, or functions that answer alike. -/
inductive Template.AnswersLike (related : σ → σ' → Prop) : Template σ → Template σ' → Prop where
  | native {function : Native σ} {function' : Native σ'} (h : function.AnswersLike related function') :
    AnswersLike related (.native function) (.native function')
  | compiled (tree : Node) : AnswersLike related (.compiled tree) (.compiled tree)

/-- The tables differ only in functions, and these answer alike. -/
structure Registry.AnswersLike (related : σ → σ' → Prop) (registry : Registry σ) (registry' : Registry σ') :
    Prop where
  internal : ∀ name, registry.internal? name = registry'.internal? name
  external : ∀ name, Option.Rel (Template.AnswersLike related) (registry.external? name) (registry'.external? name)

theorem Stage.valueOf_flat {environment : Environment} {params : Parameters} (h : environment.Shows params)
    (location : Location) (path : Path) :
    Agrees (Agreement.same related) Eq ((Stage.mk registry .default).valueOf location path environment)
      (params.valueOf location path) := by
  unfold Stage.valueOf Parameters.valueOf
  rw [h.resolve]
  cases params.resolve path with
  | ok value => exact .pure rfl
  | error segment => exact .halt rfl

theorem Stage.textOf_flat {environment : Environment} {params : Parameters} (h : environment.Shows params)
    (location : Location) (path : Path) :
    Agrees (Agreement.same related) Eq ((Stage.mk registry .default).textOf location path environment)
      (params.textOf location path) := by
  unfold Stage.textOf Parameters.textOf
  apply (Stage.valueOf_flat h location path).bind
  rintro value _ rfl
  cases value.text with
  | none => exact .halt rfl
  | some text => exact .pure rfl

/-- A function of the host is called with layers, and the other one with the flat map that these show. -/
theorem Native.AnswersLike.agrees {function : Native σ} {function' : Native σ'}
    (hnative : function.AnswersLike related function') {environment : Environment} {params : Parameters}
    (h : environment.Shows params) :
    Agrees (Agreement.same related) (fun _ _ => True)
      (Action.onHost (function ⟨environment, .default⟩) >>= Action.emit)
      (Action.onHost (function' (.ofMap params)) >>= Action.emit) := by
  have hanswer : Agrees (Agreement.same related) Eq (Action.onHost (function ⟨environment, .default⟩))
      (Action.onHost (function' (.ofMap params))) := .onHost (hnative _ _ h.answersFrom)
  apply hanswer.bind
  intro text text' htext
  exact .emit htext

namespace Node

variable {invoke : Node → Environment → Action σ Unit} {invoke' : Node → Parameters → Action σ' Unit}

mutual

/-- One tree does the same with layers and with a flat map, if the trees that it calls do. -/
theorem render_flat (hregistry : registry.AnswersLike related registry')
    (hinvoke : ∀ name tree environment params, registry.Holds name tree → environment.Shows params →
      Agrees (Agreement.same related) (fun _ _ => True) (invoke tree environment) (invoke' tree params)) :
    ∀ (node : Node) (environment : Environment) (params : Parameters), node.distinctNames = true →
      environment.Shows params →
        Agrees (Agreement.same related) (fun _ _ => True) (node.render ⟨registry, .default⟩ invoke environment)
          (node.renderFlat registry' invoke' params)
  | literal _ text, _, _, _, _ => .emit rfl
  | reference location mode path, environment, params, _, h => by
    rw [render, renderFlat]
    apply (Stage.textOf_flat h location path).bind
    rintro text _ rfl
    exact .emit rfl
  | deferred _ inner, environment, params, hnames, h => by
    rw [distinctNames] at hnames
    rw [render, renderFlat]
    apply (render_flat hregistry hinvoke inner environment params hnames h).privately.bind
    intro text text' htext
    exact .emit htext
  | call location .internal name args, environment, params, hnames, h => by
    simp only [distinctNames, Bool.and_eq_true, decide_eq_true_eq] at hnames
    rw [render, renderFlat, ← hregistry.internal]
    cases hfound : registry.internal? name with
    | none => exact .halt rfl
    | some tree =>
      apply (collect_flat hregistry hinvoke args environment params hnames.2 h).bind
      rintro layer _ ⟨rfl, hlayer⟩
      rw [← hlayer] at hnames
      exact hinvoke name tree _ _ (.inl hfound) (h.layer hnames.1)
  | call location .external name args, environment, params, hnames, h => by
    simp only [distinctNames, Bool.and_eq_true, decide_eq_true_eq] at hnames
    rw [render, renderFlat]
    apply Agrees.orFail_bind (hregistry.external name) rfl
    intro template template' hfound _ htemplate
    apply (collect_flat hregistry hinvoke args environment params hnames.2 h).bind
    rintro layer _ ⟨rfl, hlayer⟩
    rw [← hlayer] at hnames
    have hlayers := h.layer hnames.1
    cases htemplate with
    | native hnative => exact hnative.agrees hlayers
    | compiled tree =>
      apply (hinvoke name tree _ _ (.inr hfound) hlayers).privately.bind
      intro text text' htext
      exact .emit htext
  | body _ children, environment, params, hnames, h => by
    rw [distinctNames] at hnames
    rw [render, renderFlat]
    exact renderAll_flat hregistry hinvoke children environment params hnames h

theorem renderAll_flat (hregistry : registry.AnswersLike related registry')
    (hinvoke : ∀ name tree environment params, registry.Holds name tree → environment.Shows params →
      Agrees (Agreement.same related) (fun _ _ => True) (invoke tree environment) (invoke' tree params)) :
    ∀ (nodes : List Node) (environment : Environment) (params : Parameters), distinctNamesAll nodes = true →
      environment.Shows params →
        Agrees (Agreement.same related) (fun _ _ => True) (renderAll ⟨registry, .default⟩ invoke nodes environment)
          (renderAllFlat registry' invoke' nodes params)
  | [], _, _, _, _ => .pure trivial
  | node :: nodes, environment, params, hnames, h => by
    simp only [distinctNamesAll, Bool.and_eq_true] at hnames
    rw [renderAll, renderAllFlat]
    apply (render_flat hregistry hinvoke node environment params hnames.1 h).bind
    intro _ _ _
    exact renderAll_flat hregistry hinvoke nodes environment params hnames.2 h

/-- The arguments of a call have the same values, under the names that the call gives. -/
theorem collect_flat (hregistry : registry.AnswersLike related registry')
    (hinvoke : ∀ name tree environment params, registry.Holds name tree → environment.Shows params →
      Agrees (Agreement.same related) (fun _ _ => True) (invoke tree environment) (invoke' tree params)) :
    ∀ (args : List (String × Node)) (environment : Environment) (params : Parameters),
      distinctNamesArgs args = true → environment.Shows params →
        Agrees (Agreement.same related) (fun layer values => layer = values ∧ layer.map Prod.fst = args.map Prod.fst)
          (collect ⟨registry, .default⟩ invoke args environment) (collectFlat registry' invoke' args params)
  | [], _, _, _, _ => .pure ⟨rfl, rfl⟩
  | (name, node) :: args, environment, params, hnames, h => by
    simp only [distinctNamesArgs, Bool.and_eq_true] at hnames
    have hmore := collect_flat hregistry hinvoke args environment params hnames.2 h
    obtain ⟨location, path, rfl⟩ | hne := node.passed_or_ne
    · rw [collect, collectFlat]
      apply (Stage.valueOf_flat h location path).bind
      rintro value _ rfl
      apply hmore.bind
      rintro layer _ ⟨rfl, hlayer⟩
      exact .pure ⟨rfl, congrArg (name :: ·) hlayer⟩
    · rw [collect_cons _ _ hne, collectFlat_cons _ _ hne]
      apply (render_flat hregistry hinvoke node environment params hnames.1 h).privately.bind
      rintro text _ rfl
      apply hmore.bind
      rintro layer _ ⟨rfl, hlayer⟩
      exact .pure ⟨rfl, congrArg (name :: ·) hlayer⟩

end

end Node

namespace Stage

theorem renderTree_flat (hregistry : registry.AnswersLike related registry')
    (hnames : registry.Every fun tree => tree.distinctNames = true) (depth : Nat) :
    ∀ (name : String) (tree : Node) (environment : Environment) (params : Parameters), registry.Holds name tree →
      environment.Shows params →
        Agrees (Agreement.same related) (fun _ _ => True)
          ((Stage.mk registry .default).renderTree depth tree environment)
          (registry'.renderTreeFlat depth tree params) := by
  induction depth with
  | zero =>
    intro name tree environment params hholds h
    have htooDeep : Agrees (Agreement.same related) (fun _ _ => True) (Action.halt .tooDeep : Action σ Unit)
        (Action.halt .tooDeep : Action σ' Unit) := .halt rfl
    exact Node.render_flat hregistry (fun _ _ _ _ _ _ => htooDeep) tree environment params (hnames name tree hholds) h
  | succ depth ih =>
    intro name tree environment params hholds h
    exact Node.render_flat hregistry ih tree environment params (hnames name tree hholds) h

/-- A render does the same with layers and with flat maps. -/
theorem render_flat (hregistry : registry.AnswersLike related registry')
    (hnames : registry.Every fun tree => tree.distinctNames = true) (depth : Nat) (name : String)
    (params : Parameters) :
    Agrees (Agreement.same related) (fun _ _ => True) ((Stage.mk registry .default).render depth name (.map params))
      (registry'.renderFlat depth name params) := by
  have hshows := Environment.Shows.ofMap params
  have hexternal := hregistry.external name
  unfold Stage.render Registry.renderFlat
  cases hfound : registry.external? name with
  | none =>
    rw [hfound] at hexternal
    cases hfound' : registry'.external? name with
    | none => exact .halt rfl
    | some template => rw [hfound'] at hexternal; cases hexternal
  | some template =>
    rw [hfound] at hexternal
    generalize registry'.external? name = found at hexternal
    cases hexternal with
    | some htemplate =>
      cases htemplate with
      | native hnative => exact hnative.agrees hshows
      | compiled tree => exact renderTree_flat hregistry hnames depth name tree _ params (.inr hfound) hshows

end Stage

/-! ## Recording what functions are called with -/

/-- The template, recording that it was called if it is a function of the host. -/
def Template.logged : Template σ → Template (Ledger σ)
  | .native function => .native (Native.logged function)
  | .compiled tree => .compiled tree

/-- The tables with all functions of the host recording their calls. -/
def Registry.logged (registry : Registry σ) : Registry (Ledger σ) :=
  ⟨registry.internal, registry.external.map fun _ template => template.logged⟩

theorem Registry.external?_logged (registry : Registry σ) (name : String) :
    registry.logged.external? name = (registry.external? name).map Template.logged := by
  simp [Registry.logged, Registry.external?]

theorem Registry.Every.logged {P : Node → Prop} (h : registry.Every P) : registry.logged.Every P := by
  intro name tree hholds
  apply h name
  obtain hinternal | hexternal := hholds
  · exact .inl hinternal
  · right
    rw [external?_logged] at hexternal
    generalize registry.external? name = found at hexternal ⊢
    rcases found with _ | ⟨_ | _⟩ <;> cases hexternal
    rfl

/-- The same functions have been called in the same order. In the second ledger each of them was given a flat map,
    and all questions about what it was given in the first one are answered from this map. -/
structure Ledger.Flattens (ledger ledger' : Ledger σ) : Prop where
  state : ledger.state = ledger'.state
  calls : List.Forall₂ (fun call call' =>
    call.1 = call'.1 ∧ ∃ params, call'.2 = .ofMap params ∧ call.2.AnswersFrom params) ledger.calls ledger'.calls

namespace Native.OnlyAsks

variable {function : Native σ}

theorem answersLike (h : function.OnlyAsks) : function.AnswersLike Eq function := by
  rintro args params hargs host _ rfl
  rw [h.eq hargs]
  exact ⟨rfl, rfl⟩

theorem logged_answersLike (h : function.OnlyAsks) :
    (Native.logged function).AnswersLike (fun ledger host => ledger.state = host) function := by
  rintro args params hargs ledger _ rfl
  show (function args ledger.state).1 = _ ∧ (function args ledger.state).2 = _
  rw [h.eq hargs]
  exact ⟨rfl, rfl⟩

/-- Both calls are recorded, one with what it was given and one with the flat map. -/
theorem logged_answersLike_logged (h : function.OnlyAsks) :
    (Native.logged function).AnswersLike Ledger.Flattens function.logged := by
  intro args params hargs ledger ledger' hledger
  unfold Native.logged
  rw [h.eq hargs, hledger.state]
  have hcall : List.Forall₂ (fun call call' : Native σ × Arguments =>
      call.1 = call'.1 ∧ ∃ params, call'.2 = .ofMap params ∧ call.2.AnswersFrom params)
      [(function, args)] [(function, .ofMap params)] := .cons ⟨rfl, params, rfl, hargs⟩ .nil
  exact ⟨rfl, rfl, List.rel_append hledger.calls hcall⟩

end Native.OnlyAsks

/-- All functions of the host in the tables only ask. -/
def Registry.OnlyAsks (registry : Registry σ) : Prop :=
  ∀ name function, registry.external? name = some (.native function) → function.OnlyAsks

namespace Registry.OnlyAsks

theorem empty : (Registry.empty : Registry σ).OnlyAsks := by
  intro name function h
  simp at h

theorem define (h : registry.OnlyAsks) (name : String) (tree : Node) : (registry.define name tree).OnlyAsks := by
  intro other function hfound
  rw [external?_define] at hfound
  by_cases hname : name = other
  · rw [if_pos hname] at hfound
    cases hfound
  · rw [if_neg hname] at hfound
    exact h other function hfound

theorem register (h : registry.OnlyAsks) (name : String) {function : Native σ} (hasks : function.OnlyAsks) :
    (registry.register name function).OnlyAsks := by
  intro other found hfound
  rw [external?_register] at hfound
  by_cases hname : name = other
  · rw [if_pos hname] at hfound
    cases hfound
    exact hasks
  · rw [if_neg hname] at hfound
    exact h other found hfound

theorem answersLike (h : registry.OnlyAsks) : registry.AnswersLike Eq registry where
  internal _ := rfl
  external name := by
    have hname := h name
    generalize registry.external? name = found at hname
    rcases found with _ | ⟨function | tree⟩
    · exact .none
    · exact .some (.native (hname function rfl).answersLike)
    · exact .some (.compiled tree)

theorem logged_answersLike (h : registry.OnlyAsks) :
    registry.logged.AnswersLike (fun ledger host => ledger.state = host) registry where
  internal _ := rfl
  external name := by
    have hname := h name
    rw [external?_logged]
    generalize registry.external? name = found at hname
    rcases found with _ | ⟨function | tree⟩
    · exact .none
    · exact .some (.native (hname function rfl).logged_answersLike)
    · exact .some (.compiled tree)

theorem logged_answersLike_logged (h : registry.OnlyAsks) :
    registry.logged.AnswersLike Ledger.Flattens registry.logged where
  internal _ := rfl
  external name := by
    have hname := h name
    rw [external?_logged]
    generalize registry.external? name = found at hname
    rcases found with _ | ⟨function | tree⟩
    · exact .none
    · exact .some (.native (hname function rfl).logged_answersLike_logged)
    · exact .some (.compiled tree)

end Registry.OnlyAsks

/-! ## The main statement -/

/-- **Layers are a flat dynamic scope.** Where the arguments of each call have distinct names, a render with the
    default resolver does what a render with flat maps does, to the text that it leaves when it stops early. If the
    functions of the host record what they are called with, nothing else changes, both renders call the same
    functions in the same order, and all that a function can ask about its arguments is answered from the flat map
    that it is given in the other render. -/
theorem Stage.render_eq_renderFlat {registry : Registry σ}
    (hnames : registry.Every fun tree => tree.distinctNames = true) (hasks : registry.OnlyAsks) (depth : Nat)
    (name : String) (params : Parameters) (output : Output σ) :
    let layered := (Stage.mk registry .default).render depth name (.map params) output
    let recorded : Output (Ledger σ) := ⟨output.written, ⟨output.host, []⟩⟩
    let layeredCalls := (Stage.mk registry.logged .default).render depth name (.map params) recorded
    let flatCalls := registry.logged.renderFlat depth name params recorded
    layered = registry.renderFlat depth name params output ∧
      (layeredCalls.1 = layered.1 ∧ layeredCalls.2.written = layered.2.written ∧
        layeredCalls.2.host.state = layered.2.host) ∧
      List.Forall₂ (fun call call' =>
        call.1 = call'.1 ∧ ∃ params, call'.2 = .ofMap params ∧ call.2.AnswersFrom params)
        layeredCalls.2.host.calls flatCalls.2.host.calls := by
  intro layered recorded layeredCalls flatCalls
  have hplain := (render_flat hasks.answersLike hnames depth name params output output rfl rfl).same_eq
  have hrecorded :=
    (render_flat hasks.logged_answersLike hnames.logged depth name params recorded output rfl rfl).same_eq
  have hcalls := (render_flat hasks.logged_answersLike_logged hnames.logged depth name params recorded recorded rfl
    ⟨rfl, .nil⟩).same_eq
  have hflat : layered = registry.renderFlat depth name params output := by
    obtain ⟨hresult, hwritten, hhost⟩ := hplain
    exact Prod.ext hresult (congrArg₂ Output.mk hwritten hhost)
  rw [← hflat] at hrecorded
  exact ⟨hflat, hrecorded, hcalls.2.2.calls⟩

/-- A call in an argument, in which a name of the caller is shadowed by an argument that is made from it, around a
    function that asks for a name of each scope. -/
theorem Stage.render_eq_renderFlat_shadowed :
    let wrap := Node.body default [.call default .external "f" [("v", .deferred default (.body default
      [.literal default "<", .reference default .raw ["v"]]))]]
    let page := Node.body default [.call default .internal "wrap" [("w", .deferred default (.body default
      [.call default .external "f" [("x", .deferred default (.literal default "0"))]]))]]
    let registry : Registry Unit :=
      ((Registry.empty.register "f" (.join ["v", "w", "x"])).define "wrap" wrap).define "page" page
    let params : Parameters := [("v", .string "1"), ("x", .bool true)]
    registry.Every (fun tree => tree.distinctNames = true) ∧ registry.OnlyAsks ∧
      ((Stage.mk registry .default).render 1 "page" (.map params) ⟨"", ()⟩).2.written = "<1|1|?|0|true" ∧
      (registry.renderFlat 1 "page" params ⟨"", ()⟩).2.written = "<1|1|?|0|true" := by
  intro wrap page registry params
  have hjoin : (Native.join ["v", "w", "x"] : Native Unit).OnlyAsks := by
    intro args args' _ _ htext
    funext host
    simp [Native.join, Native.ofArguments, htext]
  have hnames : registry.Every fun tree => tree.distinctNames = true :=
    (((Registry.every_empty _).register "f" _).define "wrap" (by decide)).define "page" (by decide)
  have hasks : registry.OnlyAsks := ((Registry.OnlyAsks.empty.register "f" hjoin).define "wrap" wrap).define "page" page
  have hwritten : ((Stage.mk registry .default).render 1 "page" (.map params) ⟨"", ()⟩).2.written =
      "<1|1|?|0|true" := by decide +kernel
  have hflat := (render_eq_renderFlat hnames hasks 1 "page" params ⟨"", ()⟩).1
  refine ⟨hnames, hasks, hwritten, ?_⟩
  rw [← hflat]
  exact hwritten

end HtmlTemplate
