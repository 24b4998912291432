import HtmlTemplate.Proofs.Render.Calls
import HtmlTemplate.Proofs.Render.Flattened
import HtmlTemplate.Proofs.Text.Html
import HtmlTemplate.Tree.Tag

/-!
# What nodes write

An element is spread over the literals of a body, and what a single one of them writes is no HTML. So lists of nodes
are looked at: the literals and values of an attribute write an attribute, and all nodes of an element write an element
(`Node.Emits.tag`). What a call writes depends on the tree that it finds. That such trees write HTML is assumed for one
walk over nodes (`Node.Emits`), and the bound on nested calls is the induction that it follows by
(`Stage.renderTree_writes`).

The arguments of a call are evaluated and not written (`Node.collect_yields`), so nothing has to be known of them. A
value that is passed on can only be written by an escaped reference of the tree that is called.

## Contents

* `Action.Ensures`, `Action.Writes`, `Action.Yields` — what holds whenever an action ends;
* `Node.Emits` — what holds of the text that some nodes write;
* `Node.Emits.append`, `.reference`, `.call`, `.flatten`, `.tag` — how it comes about;
* `Stage.render_writes` — a whole render.
-/

namespace HtmlTemplate

variable {σ α β : Type}

/-! ## Actions -/

namespace Action

/-- Whenever the action ends, `P` holds of its value and of the text that it has written. -/
def Ensures (action : Action σ α) (P : α → String → Prop) : Prop :=
  ∀ output value after, action output = (.ok value, after) →
    ∃ text, after.written = output.written ++ text ∧ P value text

/-- What the action writes is a text of which `P` holds. -/
def Writes (action : Action σ α) (P : String → Prop) : Prop := action.Ensures fun _ text => P text

/-- The action writes nothing, and `P` holds of its value. -/
def Yields (action : Action σ α) (P : α → Prop) : Prop := action.Ensures fun value text => P value ∧ text = ""

variable {action : Action σ α} {next : α → Action σ β}

theorem Ensures.bind {P : α → String → Prop} {Q : β → String → Prop} (h : action.Ensures P)
    (hnext : ∀ value text, P value text → (next value).Ensures fun result more => Q result (text ++ more)) :
    (action >>= next).Ensures Q := by
  intro output result after hafter
  rw [bind_apply] at hafter
  rcases haction : action output with ⟨halt | value, between⟩
  · rw [haction] at hafter
    cases hafter
  · rw [haction] at hafter
    obtain ⟨text, hbetween, hP⟩ := h output value between haction
    obtain ⟨more, hwritten, hQ⟩ := hnext value text hP between result after hafter
    exact ⟨text ++ more, by rw [hwritten, hbetween, String.append_assoc], hQ⟩

/-- What comes behind an action that writes nothing writes all there is. -/
theorem Yields.bind {P : α → Prop} {Q : β → String → Prop} (h : action.Yields P)
    (hnext : ∀ value, P value → (next value).Ensures Q) : (action >>= next).Ensures Q := by
  apply Ensures.bind h
  rintro value _ ⟨hvalue, rfl⟩
  simpa only [String.empty_append] using hnext value hvalue

/-- Two texts one after the other. -/
theorem Writes.bind {P Q R : String → Prop} (h : action.Writes P) (hnext : ∀ value, (next value).Writes Q)
    (happend : ∀ text more, P text → Q more → R (text ++ more)) : (action >>= next).Writes R := by
  apply Ensures.bind h
  intro value text htext output result after hafter
  obtain ⟨more, hwritten, hmore⟩ := hnext value output result after hafter
  exact ⟨more, hwritten, happend text more htext hmore⟩

theorem Writes.mono {P Q : String → Prop} (h : action.Writes P) (himp : ∀ text, P text → Q text) : action.Writes Q := by
  intro output value after hafter
  obtain ⟨text, hwritten, htext⟩ := h output value after hafter
  exact ⟨text, hwritten, himp text htext⟩

theorem writes_emit {P : String → Prop} {text : String} (h : P text) : (emit text : Action σ Unit).Writes P := by
  rintro output ⟨⟩ _ ⟨⟩
  exact ⟨text, rfl, h⟩

theorem yields_pure {P : α → Prop} {value : α} (h : P value) : (pure value : Action σ α).Yields P := by
  rintro output _ _ ⟨⟩
  exact ⟨"", String.append_empty.symm, h, rfl⟩

theorem ensures_halt {P : α → String → Prop} (reason : Halt RenderError) : (halt reason : Action σ α).Ensures P := by
  rintro output _ _ ⟨⟩

theorem yields_orFail {P : α → Prop} {error : RenderError} {found : Option α}
    (h : ∀ value, found = some value → P value) : (orFail error found : Action σ α).Yields P := by
  cases found with
  | none => exact ensures_halt _
  | some value => exact yields_pure (h value rfl)

/-- A buffer of its own is all that is written to. -/
theorem yields_privately (action : Action σ Unit) : action.privately.Yields fun _ => True := by
  intro output value after hafter
  have hwritten : (action.privately output).2.written = output.written := by
    unfold Action.privately
    rcases action { output with written := "" } with ⟨_ | ⟨⟩, inner⟩ <;> rfl
  rw [hafter] at hwritten
  exact ⟨"", by rw [hwritten, String.append_empty], trivial, rfl⟩

/-- What is written to a buffer of its own is the value. -/
theorem Writes.privately {action : Action σ Unit} {P : String → Prop} (h : action.Writes P) :
    action.privately.Yields P := by
  intro output value after hafter
  obtain ⟨text, hwritten, -, htext⟩ := yields_privately action output value after hafter
  refine ⟨text, hwritten, ?_, htext⟩
  unfold Action.privately at hafter
  rcases haction : action { output with written := "" } with ⟨_ | ⟨⟩, inner⟩ <;> rw [haction] at hafter <;> cases hafter
  obtain ⟨own, hown, hP⟩ := h _ _ _ haction
  rw [hown, String.empty_append]
  exact hP

end Action

open HtmlTemplate.Action (Writes Yields)

variable {stage : Stage σ} {invoke : Node → Environment → Action σ Unit}

/-! ## Evaluating -/

theorem Stage.valueOf_yields (location : Location) (path : Path) (environment : Environment) :
    (stage.valueOf location path environment).Yields fun _ => True := by
  unfold Stage.valueOf
  cases environment.resolve stage.resolver path with
  | ok value => exact Action.yields_pure trivial
  | error segment => exact Action.ensures_halt _

theorem Stage.textOf_yields (location : Location) (path : Path) (environment : Environment) :
    (stage.textOf location path environment).Yields fun _ => True := by
  unfold Stage.textOf
  apply (Stage.valueOf_yields location path environment).bind
  intro value _
  exact Action.yields_orFail fun _ _ => trivial

namespace Node

/-- Arguments are evaluated and not written, whatever they are. -/
theorem collect_yields (args : List (String × Node)) (environment : Environment) :
    (collect stage invoke args environment).Yields fun _ => True := by
  induction args with
  | nil => exact Action.yields_pure trivial
  | cons arg args ih =>
    obtain ⟨name, node⟩ := arg
    obtain ⟨location, path, rfl⟩ | hne := node.passed_or_ne
    · rw [collect]
      apply (Stage.valueOf_yields location path environment).bind
      intro value _
      apply ih.bind
      intro layer _
      exact Action.yields_pure trivial
    · rw [collect_cons stage invoke hne]
      apply (Action.yields_privately _).bind
      intro text _
      apply ih.bind
      intro layer _
      exact Action.yields_pure trivial

/-! ## Nodes -/

/-- The nodes write a text of which `P` holds, if the trees that they call write HTML and are no functions of the
    host. -/
def Emits (nodes : List Node) (P : String → Prop) : Prop :=
  ∀ ⦃σ : Type⦄ (stage : Stage σ) (invoke : Node → Environment → Action σ Unit), stage.registry.NoNatives →
    (∀ name tree environment, stage.registry.Holds name tree → (invoke tree environment).Writes IsHtml) →
    ∀ environment, (renderAll stage invoke nodes environment).Writes P

theorem renderAll_singleton (stage : Stage σ) (invoke : Node → Environment → Action σ Unit) (node : Node)
    (environment : Environment) : renderAll stage invoke [node] environment = node.render stage invoke environment := by
  rw [renderAll]
  exact Action.bind_pure_unit _

namespace Emits

variable {P Q R : String → Prop} {nodes more : List Node}

theorem mono (h : Emits nodes P) (himp : ∀ text, P text → Q text) : Emits nodes Q :=
  fun _ stage invoke hnative hinvoke environment => (h stage invoke hnative hinvoke environment).mono himp

theorem append (h : Emits nodes P) (hmore : Emits more Q) (happend : ∀ text more, P text → Q more → R (text ++ more)) :
    Emits (nodes ++ more) R := by
  intro σ stage invoke hnative hinvoke environment
  rw [renderAll_append]
  apply (h stage invoke hnative hinvoke environment).bind _ happend
  intro _
  exact hmore stage invoke hnative hinvoke environment

theorem nil (h : P "") : Emits [] P := by
  intro σ stage invoke _ _ environment output _ _ hafter
  cases hafter
  exact ⟨"", String.append_empty.symm, h⟩

theorem literal {location : Location} {text : String} (h : P text) : Emits [.literal location text] P := by
  intro σ stage invoke _ _ environment
  rw [renderAll_singleton]
  exact Action.writes_emit h

/-- The text of an escaped reference is plain. -/
theorem reference (location : Location) (path : Path) : Emits [.reference location .escaped path] IsPlain := by
  intro σ stage invoke _ _ environment
  rw [renderAll_singleton, render]
  apply (Stage.textOf_yields location path environment).bind
  intro text _
  exact Action.writes_emit (delimiters_escapeHtml text)

/-- A call writes what the tree that it finds writes. -/
theorem call (location : Location) (target : Binding) (name : String) (args : List (String × Node)) :
    Emits [.call location target name args] IsHtml := by
  intro σ stage invoke hnative hinvoke environment
  rw [renderAll_singleton, render_call]
  have hfound : (Action.orFail (.notDefined location name) (stage.registry.target? target name) :
      Action σ (Template σ)).Yields fun template => stage.registry.target? target name = some template :=
    Action.yields_orFail fun _ h => h
  apply hfound.bind
  intro template htemplate
  apply (collect_yields args environment).bind
  intro layer _
  cases template with
  | native function =>
    cases target with
    | internal => simp [Registry.target?] at htemplate
    | external => exact absurd htemplate (hnative name function)
  | compiled tree =>
    have hholds : stage.registry.Holds name tree := Registry.holds_of_target? htemplate
    cases target with
    | internal => exact hinvoke name tree _ hholds
    | external =>
      apply (hinvoke name tree _ hholds).privately.bind
      intro text htext
      exact Action.writes_emit htext

theorem body {location : Location} {children : List Node} (h : Emits children P) :
    Emits [.body location children] P := by
  intro σ stage invoke hnative hinvoke environment
  rw [renderAll_singleton, render]
  exact h stage invoke hnative hinvoke environment

/-- Flattening does not change what is written. -/
theorem flatten {tree : Node} (h : Emits [tree] P) : Emits [tree.flatten] P := by
  intro σ stage invoke hnative hinvoke environment
  rw [renderAll_singleton, render_flatten, ← renderAll_singleton]
  exact h stage invoke hnative hinvoke environment

theorem of_forall (hnil : P "") (happend : ∀ text more, P text → P more → P (text ++ more))
    (h : ∀ node ∈ nodes, Emits [node] P) : Emits nodes P := by
  induction nodes with
  | nil => exact nil hnil
  | cons node nodes ih =>
    have hnode := h node List.mem_cons_self
    have hnodes := ih fun other hother => h other (List.mem_cons_of_mem _ hother)
    exact hnode.append hnodes happend

end Emits

end Node

/-! ## Tags -/

/-- The value of the modifier is written as a plain text, and the name of an attribute is an identifier. -/
def Modifier.EmitsPlain : Modifier → Prop
  | id value | styleClass value => Node.Emits [value] IsPlain
  | attr name value => IsIdentifier name ∧ Node.Emits [value] IsPlain

namespace Node.Emits

variable {location : Location} {name : String}

theorem inAttribute {value : List Node} (hname : IsIdentifier name) (hvalue : Emits value IsPlain) :
    Emits (Node.inAttribute location name value) IsAttributes := by
  have hopen : Emits [.literal location (" " ++ name ++ "=\"")] (· = " " ++ name ++ "=\"") := literal rfl
  have hclose : Emits [.literal location "\""] (· = "\"") := literal rfl
  have hvalued : Emits ([.literal location (" " ++ name ++ "=\"")] ++ value) fun text =>
      ∃ value, IsPlain value ∧ text = " " ++ name ++ "=\"" ++ value := by
    apply hopen.append hvalue
    rintro _ value rfl hvalue
    exact ⟨value, hvalue, rfl⟩
  apply hvalued.append hclose
  rintro _ _ ⟨value, hvalue, rfl⟩ rfl
  exact hvalue.isAttributes hname

theorem intersperse (location : Location) {values : List Node} (h : ∀ value ∈ values, Emits [value] IsPlain) :
    Emits (values.intersperse (.literal location " ")) IsPlain := by
  induction values with
  | nil => exact nil rfl
  | cons value values ih =>
    have hvalue := h value List.mem_cons_self
    cases values with
    | nil => exact hvalue
    | cons next values =>
      have hblank : Emits [.literal location " "] IsPlain := literal rfl
      have hvalues := ih fun other hother => h other (List.mem_cons_of_mem _ hother)
      rw [List.intersperse_cons_cons]
      exact hvalue.append (hblank.append hvalues fun _ _ => IsPlain.append) fun _ _ => IsPlain.append

/-- The id, the classes and the attributes of a tag are attributes of its element. -/
theorem attributes (location : Location) {modifiers : List Modifier}
    (h : ∀ modifier ∈ modifiers, modifier.EmitsPlain) :
    Emits ((Modifier.lastId modifiers).elim [] (fun value => Node.inAttribute location "id" [value]) ++
      (match Modifier.classes modifiers with
        | [] => []
        | values => Node.inAttribute location "class" (values.intersperse (.literal location " "))) ++
      (Modifier.attrs modifiers).flatMap fun (key, value) => Node.inAttribute location key [value]) IsAttributes := by
  refine append (append ?hid ?hclasses fun _ _ => IsAttributes.append) ?hattrs fun _ _ => IsAttributes.append
  case hid =>
    cases hid : Modifier.lastId modifiers with
    | none => exact nil .nil
    | some value => exact inAttribute isIdentifier_id (h _ (Modifier.mem_of_lastId hid))
  case hclasses =>
    have hvalues := intersperse location fun value hvalue => h _ (Modifier.mem_of_mem_classes hvalue)
    cases hclasses : Modifier.classes modifiers with
    | nil => exact nil .nil
    | cons value values =>
      rw [hclasses] at hvalues
      exact inAttribute isIdentifier_class hvalues
  case hattrs =>
    have hattrs : ∀ attr ∈ Modifier.attrs modifiers,
        Emits (Node.inAttribute location attr.1 [attr.2]) IsAttributes := by
      intro attr hattr
      obtain ⟨hname, hvalue⟩ := h _ (Modifier.mem_of_mem_attrs hattr)
      exact inAttribute hname hvalue
    generalize Modifier.attrs modifiers = attrs at hattrs
    induction attrs with
    | nil => exact nil .nil
    | cons attr attrs ih =>
      have hfirst := hattrs attr List.mem_cons_self
      have hmore := ih fun other hother => hattrs other (List.mem_cons_of_mem _ hother)
      rw [List.flatMap_cons]
      exact hfirst.append hmore fun _ _ => IsAttributes.append

theorem element (location : Location) (hname : IsIdentifier name) {attrs content : List Node}
    (hattrs : Emits attrs IsAttributes) (hcontent : Emits content IsHtml) :
    Emits (.literal location ("<" ++ name) :: attrs ++ .literal location ">" :: content ++
      [.literal location ("</" ++ name ++ ">")]) IsHtml := by
  have hless : Emits [.literal location ("<" ++ name)] (· = "<" ++ name) := literal rfl
  have hgreater : Emits [.literal location ">"] (· = ">") := literal rfl
  have hclosing : Emits [.literal location ("</" ++ name ++ ">")] (· = "</" ++ name ++ ">") := literal rfl
  have hopened : Emits (.literal location ("<" ++ name) :: attrs) fun text =>
      ∃ attributes, IsAttributes attributes ∧ text = "<" ++ name ++ attributes := by
    apply hless.append hattrs
    rintro _ attributes rfl hattributes
    exact ⟨attributes, hattributes, rfl⟩
  have hinner : Emits (.literal location ">" :: content) fun text => ∃ inner, IsHtml inner ∧ text = ">" ++ inner := by
    apply hgreater.append hcontent
    rintro _ inner rfl hinner
    exact ⟨inner, hinner, rfl⟩
  have hunclosed : Emits (.literal location ("<" ++ name) :: attrs ++ .literal location ">" :: content) fun text =>
      ∃ attributes inner, IsAttributes attributes ∧ IsHtml inner ∧
        text = "<" ++ name ++ attributes ++ (">" ++ inner) := by
    apply hopened.append hinner
    rintro _ _ ⟨attributes, hattributes, rfl⟩ ⟨inner, hinner, rfl⟩
    exact ⟨attributes, inner, hattributes, hinner, rfl⟩
  -- Only with the closing tag there is an element; the nodes in front of it write none.
  apply hunclosed.append hclosing
  rintro _ _ ⟨attributes, inner, hattributes, hinner, rfl⟩ rfl
  have helement := hinner.enclose hname hattributes
  simpa only [String.append_assoc] using helement

/-- **The nodes of an element write an element**, if its content is HTML and what is said about its tag is plain. -/
theorem tag {modifiers : List Modifier} {content : Option Node} (hname : IsIdentifier name)
    (hmodifiers : ∀ modifier ∈ modifiers, modifier.EmitsPlain) (hcontent : Emits content.toList IsHtml) :
    Emits [.tag location name modifiers content] IsHtml :=
  body (element location hname (attributes location hmodifiers) hcontent)

end Node.Emits

/-! ## Whole renders -/

namespace Stage

/-- However deep calls are nested, a tree writes HTML where all trees write HTML if those that they call do. -/
theorem renderTree_writes (hnative : stage.registry.NoNatives)
    (hemits : stage.registry.Every fun tree => Node.Emits [tree] IsHtml) (depth : Nat) :
    ∀ (name : String) (tree : Node) (environment : Environment), stage.registry.Holds name tree →
      (stage.renderTree depth tree environment).Writes IsHtml := by
  induction depth with
  | zero =>
    intro name tree environment hholds
    unfold renderTree
    rw [← Node.renderAll_singleton]
    -- No call comes to its end, so whatever is asked of the text holds of it.
    have hhalt : (Action.halt .tooDeep : Action σ Unit).Writes IsHtml := Action.ensures_halt _
    exact hemits name tree hholds stage _ hnative (fun _ _ _ _ => hhalt) environment
  | succ depth ih =>
    intro name tree environment hholds
    unfold renderTree
    rw [← Node.renderAll_singleton]
    exact hemits name tree hholds stage _ hnative ih environment

/-- **A render writes HTML** where no function of the host is registered and all trees write HTML. -/
theorem render_writes (hnative : stage.registry.NoNatives)
    (hemits : stage.registry.Every fun tree => Node.Emits [tree] IsHtml) (depth : Nat) (name : String)
    (params : Value) : (stage.render depth name params).Writes IsHtml := by
  unfold render
  cases hfound : stage.registry.external? name with
  | none => exact Action.ensures_halt _
  | some template =>
    cases template with
    | native function => exact absurd hfound (hnative name function)
    | compiled tree => exact renderTree_writes hnative hemits depth name tree _ (.inr hfound)

end Stage

end HtmlTemplate
