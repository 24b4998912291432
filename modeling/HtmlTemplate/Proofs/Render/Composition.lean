import HtmlTemplate.Proofs.Alike.Trees
import HtmlTemplate.Proofs.Grammar.Blocks
import HtmlTemplate.Proofs.Render.Flattened
import HtmlTemplate.Proofs.Session.Joined

/-!
# How a tag is rendered

A tag is written as its opening tag, its content and its closing tag, and the opening tag follows one rule, in
whatever order its modifiers stand in the source: the last id, then all classes in one attribute, then the attributes
one by one (`Grammar.opening`). The rule lists what is written piece by piece. A piece is a text, or the error of a
value that has none, and what is rendered is all that stands in front of the first error (`upToFailure`).

Each node of a tag writes one piece of its rule (`Node.WritesPiece`), so the two lists are followed side by side
(`Grammar.writesPiece_opening`). The rule asks for the modifiers of each kind by themselves, and so does the tree: it
stays the same but for places when modifiers of different kinds change places (`Grammar.tagTree_alike`).

## Contents

* `Grammar.ids`, `styleClasses`, `attributes` — what is said about a tag;
* `Grammar.SelectorValue.evaluate`, `AttrValue.evaluate` — the values in an environment;
* `Grammar.opening`, `upToFailure` — the rule, and what is written of it;
* `Grammar.tagTree`, `SameByKind` — the tree of a tag, and modifiers in another order;
* `Action.emitAll`, `Node.WritesPiece` — actions that write pieces, and the nodes that do so;
* `Grammar.render_tagTree`, `tagTree_alike` — the tree follows the rule, in any order;
* `tag_composition` — the main statement.
-/

namespace HtmlTemplate

open Grammar

variable {σ : Type}

/-! ## The rule -/

/-- The text that a reference is emitted as, or the reason why it has none. -/
def Stage.evaluate (stage : Stage σ) (environment : Environment) (place : Location) (ref : Reference) :
    Except RenderError String :=
  match environment.resolve stage.resolver ref.path with
  | .error segment => .error (.paramNotFound place segment ref.path)
  | .ok value =>
    match value.text with
    | none => .error (.notRenderable place ref.path value.kind)
    | some text => .ok (if ref.escape then escapeHtml text else text)

namespace Grammar

/-- The ids that are given to a tag, in the order of the source. -/
def ids (mods : List TagModifier) : List SelectorValue :=
  mods.filterMap fun | .id _ value => some value | _ => none

/-- The classes that are given to a tag, in the order of the source. -/
def styleClasses (mods : List TagModifier) : List SelectorValue :=
  mods.filterMap fun | .styleClass _ value => some value | _ => none

/-- The attributes that are given to a tag, in the order of the source, repeated ones repeated. -/
def attributes (mods : List TagModifier) : List (String × AttrValue) :=
  mods.filterMap fun | .attr _ _ name _ value _ => some (name, value) | _ => none

def SelectorValue.evaluate (stage : Stage σ) (environment : Environment) : SelectorValue → Except RenderError String
  | ident _ name => .ok name
  | reference place ref => stage.evaluate environment place ref

def AttrValue.evaluate (stage : Stage σ) (environment : Environment) : AttrValue → Except RenderError String
  | quote _ text => .ok text
  | reference place ref => stage.evaluate environment place ref

/-- The pieces of an attribute, those of its value between quotes. -/
def assigned (name : String) (value : List (Except RenderError String)) : List (Except RenderError String) :=
  .ok (" " ++ name ++ "=\"") :: value ++ [.ok "\""]

/-- The pieces of an opening tag: the last id if there is one, the classes with spaces in between if there are any, and
    the attributes. -/
def opening (stage : Stage σ) (environment : Environment) (name : String) (mods : List TagModifier) :
    List (Except RenderError String) :=
  .ok ("<" ++ name) ::
    ((ids mods).getLast?.elim [] fun value => assigned "id" [value.evaluate stage environment]) ++
    (match styleClasses mods with
      | [] => []
      | values => assigned "class" ((values.map (SelectorValue.evaluate stage environment)).intersperse (.ok " "))) ++
    ((attributes mods).flatMap fun attr => assigned attr.1 [attr.2.evaluate stage environment]) ++
    [.ok ">"]

end Grammar

/-- The texts in front of the first error, one behind the other, and this error if there is one. -/
def upToFailure {ε : Type} : List (Except ε String) → String × Option ε
  | [] => ("", none)
  | .ok text :: parts => (text ++ (upToFailure parts).1, (upToFailure parts).2)
  | .error error :: _ => ("", some error)

namespace Grammar

/-- The tree of a tag. -/
def tagTree (scope : CallScope) (place : Location) (name : String) (mods : List TagModifier) (block : Option Block) :
    Node :=
  .tag place name (mods.map TagModifier.modifier) (block.map (Block.node scope))

/-! ### Other orders -/

/-- The kinds of modifiers. -/
inductive ModifierKind where
  | id
  | styleClass
  | attr
deriving DecidableEq

def TagModifier.kind : TagModifier → ModifierKind
  | id _ _ => .id
  | styleClass _ _ => .styleClass
  | attr _ _ _ _ _ _ => .attr

/-- The modifier without the places of its tokens. -/
def TagModifier.words (mod : TagModifier) : List (TokenKind Range) := mod.tokens.map Token.kind

/-- Both have the same modifiers of each kind in the same order, wherever these stand. -/
def SameByKind (mods mods' : List TagModifier) : Prop :=
  ∀ kind, (mods.filter fun mod => mod.kind = kind).map TagModifier.words =
    (mods'.filter fun mod => mod.kind = kind).map TagModifier.words

/-- Two modifiers of different kinds that stand side by side can change places. -/
theorem SameByKind.swap {mod mod' : TagModifier} (h : mod.kind ≠ mod'.kind) (front more : List TagModifier) :
    SameByKind (front ++ mod :: mod' :: more) (front ++ mod' :: mod :: more) := by
  intro kind
  by_cases hkind : mod.kind = kind
  · have hother : mod'.kind ≠ kind := fun hkind' => h (hkind.trans hkind'.symm)
    simp [hkind, hother]
  · simp [hkind, List.filter_cons]

end Grammar

/-! ## Actions that write pieces -/

namespace Action

/-- Writes a piece, or fails with its error. -/
def emitOne : Except RenderError String → Action σ Unit
  | .ok text => .emit text
  | .error error => .fail error

/-- Writes pieces up to the first error, and fails with it. -/
def emitAll (parts : List (Except RenderError String)) : Action σ Unit := fun output =>
  match upToFailure parts with
  | (text, none) => (.ok (), { output with written := output.written ++ text })
  | (text, some error) => (.error (.error error), { output with written := output.written ++ text })

theorem emitAll_nil : (emitAll [] : Action σ Unit) = pure () := by
  funext output
  simp [emitAll, upToFailure]

theorem emitAll_cons (part : Except RenderError String) (parts : List (Except RenderError String)) :
    (emitAll (part :: parts) : Action σ Unit) = emitOne part >>= fun _ => emitAll parts := by
  funext output
  cases part with
  | error error => simp [emitAll, upToFailure, emitOne, bind_apply, fail, halt]
  | ok text =>
    rw [bind_apply]
    simp only [emitAll, upToFailure, emitOne, emit]
    rcases upToFailure parts with ⟨more, _ | error⟩
    · simp only [String.append_assoc]
    · simp only [String.append_assoc]

end Action

/-! ## Nodes that write pieces -/

namespace Node

variable (stage : Stage σ) (invoke : Node → Environment → Action σ Unit) (environment : Environment)

/-- The node writes this piece. -/
def WritesPiece (node : Node) (part : Except RenderError String) : Prop :=
  node.render stage invoke environment = .emitOne part

variable {stage invoke environment}

theorem renderAll_of_writesPiece {nodes : List Node} {parts : List (Except RenderError String)}
    (h : List.Forall₂ (WritesPiece stage invoke environment) nodes parts) :
    renderAll stage invoke nodes environment = .emitAll parts := by
  induction h with
  | nil => exact Action.emitAll_nil.symm
  | cons hnode _ ih =>
    rw [renderAll, ih, hnode, Action.emitAll_cons]

theorem writesPiece_literal (location : Location) (text : String) :
    WritesPiece stage invoke environment (.literal location text) (.ok text) := rfl

theorem writesPiece_ofReference (place : Location) (ref : Reference) :
    WritesPiece stage invoke environment (.ofReference place ref) (stage.evaluate environment place ref) := by
  obtain ⟨path, escape⟩ := ref
  unfold WritesPiece Stage.evaluate ofReference render Stage.textOf Stage.valueOf
  cases environment.resolve stage.resolver path with
  | error segment => rfl
  | ok value =>
    simp only [Action.pure_bind]
    cases value.text with
    | none => rfl
    | some text => cases escape <;> rfl

theorem writesPiece_inAttribute (location : Location) (name : String) {nodes : List Node}
    {parts : List (Except RenderError String)} (h : List.Forall₂ (WritesPiece stage invoke environment) nodes parts) :
    List.Forall₂ (WritesPiece stage invoke environment) (inAttribute location name nodes) (assigned name parts) :=
  .cons rfl (List.rel_append h (.cons rfl .nil))

theorem writesPiece_selectorValue (value : SelectorValue) :
    WritesPiece stage invoke environment value.node (value.evaluate stage environment) := by
  cases value with
  | ident place name => rfl
  | reference place ref => exact writesPiece_ofReference place ref

theorem writesPiece_attrValue (value : AttrValue) :
    WritesPiece stage invoke environment value.node (value.evaluate stage environment) := by
  cases value with
  | quote place text => rfl
  | reference place ref => exact writesPiece_ofReference place ref

/-- The nodes of an opening tag. -/
def openTag (location : Location) (name : String) (modifiers : List Modifier) : List Node :=
  literal location ("<" ++ name) ::
    ((Modifier.lastId modifiers).elim [] fun value => inAttribute location "id" [value]) ++
    (match Modifier.classes modifiers with
      | [] => []
      | values => inAttribute location "class" (values.intersperse (literal location " "))) ++
    ((Modifier.attrs modifiers).flatMap fun attr => inAttribute location attr.1 [attr.2]) ++
    [literal location ">"]

/-- A tag is its opening tag, its content and its closing tag. -/
theorem tag_eq_openTag (location : Location) (name : String) (modifiers : List Modifier) (content : Option Node) :
    tag location name modifiers content =
      .body location
        (openTag location name modifiers ++ (content.toList ++ [literal location ("</" ++ name ++ ">")])) := by
  -- The tag attaches the end of the opening tag to its content.
  have hregroup : ∀ (front inner close : List Node) (node : Node),
      front ++ node :: inner ++ close = front ++ [node] ++ (inner ++ close) := by simp
  exact congrArg (body location) (hregroup _ _ _ _)

end Node

/-! ## The modifiers of one kind -/

namespace Grammar

theorem lastId_modifier (mods : List TagModifier) :
    Modifier.lastId (mods.map TagModifier.modifier) = (ids mods).getLast?.map SelectorValue.node := by
  rw [Modifier.lastId, ids, ← List.getLast?_map]
  congr 1
  induction mods with
  | nil => rfl
  | cons mod mods ih => cases mod <;> simp [TagModifier.modifier, ih]

theorem classes_modifier (mods : List TagModifier) :
    Modifier.classes (mods.map TagModifier.modifier) = (styleClasses mods).map SelectorValue.node := by
  rw [Modifier.classes, styleClasses]
  induction mods with
  | nil => rfl
  | cons mod mods ih => cases mod <;> simp [TagModifier.modifier, ih]

theorem attrs_modifier (mods : List TagModifier) :
    Modifier.attrs (mods.map TagModifier.modifier) = (attributes mods).map fun attr => (attr.1, attr.2.node) := by
  rw [Modifier.attrs, attributes]
  induction mods with
  | nil => rfl
  | cons mod mods ih => cases mod <;> simp [TagModifier.modifier, ih]

variable {stage : Stage σ} {invoke : Node → Environment → Action σ Unit} {environment : Environment}

/-- **The nodes of an opening tag write the pieces of its rule**, one each. -/
theorem writesPiece_opening (place : Location) (name : String) (mods : List TagModifier) :
    List.Forall₂ (Node.WritesPiece stage invoke environment) (Node.openTag place name (mods.map TagModifier.modifier))
      (opening stage environment name mods) := by
  have hid : List.Forall₂ (Node.WritesPiece stage invoke environment)
      ((Modifier.lastId (mods.map TagModifier.modifier)).elim [] fun value => Node.inAttribute place "id" [value])
      ((ids mods).getLast?.elim [] fun value => assigned "id" [value.evaluate stage environment]) := by
    rw [lastId_modifier]
    cases (ids mods).getLast? with
    | none => exact .nil
    | some value => exact Node.writesPiece_inAttribute place "id" (.cons (Node.writesPiece_selectorValue value) .nil)
  have hvalues : ∀ values : List SelectorValue, List.Forall₂ (Node.WritesPiece stage invoke environment)
      (values.map SelectorValue.node) (values.map (SelectorValue.evaluate stage environment)) := by
    intro values
    rw [List.forall₂_map_left_iff, List.forall₂_map_right_iff]
    exact List.forall₂_same.mpr fun value _ => Node.writesPiece_selectorValue value
  have hclasses : List.Forall₂ (Node.WritesPiece stage invoke environment)
      (match Modifier.classes (mods.map TagModifier.modifier) with
        | [] => []
        | values => Node.inAttribute place "class" (values.intersperse (.literal place " ")))
      (match styleClasses mods with
        | [] => []
        | values =>
          assigned "class" ((values.map (SelectorValue.evaluate stage environment)).intersperse (.ok " "))) := by
    rw [classes_modifier]
    cases styleClasses mods with
    | nil => exact .nil
    | cons value values =>
      exact Node.writesPiece_inAttribute place "class"
        (rel_intersperse (Node.writesPiece_literal place " ") (hvalues (value :: values)))
  have hattrs : List.Forall₂ (Node.WritesPiece stage invoke environment)
      ((Modifier.attrs (mods.map TagModifier.modifier)).flatMap fun attr => Node.inAttribute place attr.1 [attr.2])
      ((attributes mods).flatMap fun attr => assigned attr.1 [attr.2.evaluate stage environment]) := by
    rw [attrs_modifier, List.flatMap_map]
    refine List.rel_flatMap (List.forall₂_same.mpr fun _ _ => rfl) ?_
    rintro attr _ rfl
    exact Node.writesPiece_inAttribute place attr.1 (.cons (Node.writesPiece_attrValue attr.2) .nil)
  have hname := List.Forall₂.cons (Node.writesPiece_literal place ("<" ++ name)) hid
  exact List.rel_append (List.rel_append (List.rel_append hname hclasses) hattrs)
    (.cons (Node.writesPiece_literal place ">") .nil)

/-- **A tag is rendered by its rule**: its opening tag, its content, and its closing tag. -/
theorem render_tagTree (scope : CallScope) (place : Location) (name : String) (mods : List TagModifier)
    (block : Option Block) :
    (tagTree scope place name mods block).render stage invoke environment = (do
      .emitAll (opening stage environment name mods)
      block.elim (pure ()) fun block => (block.node scope).render stage invoke environment
      .emit ("</" ++ name ++ ">")) := by
  rw [tagTree, Node.tag_eq_openTag, Node.render, Node.renderAll_append,
    Node.renderAll_of_writesPiece (writesPiece_opening place name mods)]
  cases block with
  | none => rfl
  | some block =>
    simp only [Option.map_some, Option.toList_some, Option.elim_some, List.singleton_append, Node.renderAll,
      Node.render, Action.bind_pure_unit]

/-! ## Other orders -/

section

variable {binding : String → Binding → Binding → Prop}

theorem SelectorValue.node_alike {value value' : SelectorValue} (h : value.token.kind = value'.token.kind) :
    value.node.Alike (fun _ _ => True) binding value'.node := by
  cases value with
  | ident place name =>
    cases value' with
    | ident place' name' =>
      cases h
      exact .literal trivial name
    | reference place' ref' => cases h
  | reference place ref =>
    cases value' with
    | ident place' name' => cases h
    | reference place' ref' =>
      cases h
      exact .ofReference trivial ref

theorem AttrValue.node_alike {value value' : AttrValue} (h : value.token.kind = value'.token.kind) :
    value.node.Alike (fun _ _ => True) binding value'.node := by
  cases value with
  | quote place text =>
    cases value' with
    | quote place' text' =>
      cases h
      exact .literal trivial text
    | reference place' ref' => cases h
  | reference place ref =>
    cases value' with
    | quote place' text' => cases h
    | reference place' ref' =>
      cases h
      exact .ofReference trivial ref

/-- Modifiers with the same words differ in places only. -/
theorem modifier_alike {mod mod' : TagModifier} (h : mod.words = mod'.words) :
    Modifier.Alike (fun _ _ => True) binding mod.modifier mod'.modifier := by
  cases mod <;> cases mod' <;> simp [TagModifier.words, TagModifier.tokens] at h
  case id.id => exact .id (SelectorValue.node_alike h)
  case styleClass.styleClass => exact .styleClass (SelectorValue.node_alike h)
  case attr.attr =>
    obtain ⟨rfl, hvalue⟩ := h
    exact .attr _ (AttrValue.node_alike hvalue)

/-- The modifiers of one kind differ in places only. -/
theorem SameByKind.alike {mods mods' : List TagModifier} (h : SameByKind mods mods') (kind : ModifierKind) :
    List.Forall₂ (Modifier.Alike (fun _ _ => True) binding)
      ((mods.filter fun mod => mod.kind = kind).map TagModifier.modifier)
      ((mods'.filter fun mod => mod.kind = kind).map TagModifier.modifier) := by
  have hwords := List.forall₂_eq_eq_eq ▸ h kind
  rw [List.forall₂_map_left_iff, List.forall₂_map_right_iff] at hwords ⊢
  exact hwords.imp fun _ _ => modifier_alike

theorem lastId_filter (mods : List TagModifier) :
    Modifier.lastId ((mods.filter fun mod => mod.kind = .id).map TagModifier.modifier) =
      Modifier.lastId (mods.map TagModifier.modifier) := by
  rw [lastId_modifier, lastId_modifier, ids, List.filterMap_filter]
  congr 3
  funext mod
  cases mod <;> rfl

theorem classes_filter (mods : List TagModifier) :
    Modifier.classes ((mods.filter fun mod => mod.kind = .styleClass).map TagModifier.modifier) =
      Modifier.classes (mods.map TagModifier.modifier) := by
  rw [classes_modifier, classes_modifier, styleClasses, List.filterMap_filter]
  congr 2
  funext mod
  cases mod <;> rfl

theorem attrs_filter (mods : List TagModifier) :
    Modifier.attrs ((mods.filter fun mod => mod.kind = .attr).map TagModifier.modifier) =
      Modifier.attrs (mods.map TagModifier.modifier) := by
  rw [attrs_modifier, attrs_modifier, attributes, List.filterMap_filter]
  congr 2
  funext mod
  cases mod <;> rfl

/-- **Tags whose modifiers of each kind are the same are the same but for places.** -/
theorem tagTree_alike {mods mods' : List TagModifier} (h : SameByKind mods mods') (scope : CallScope)
    (place place' : Location) (name : String) {block block' : Option Block}
    (hblock : Option.Rel (Node.Alike (fun _ _ => True) binding)
      (block.map (Block.node scope)) (block'.map (Block.node scope))) :
    (tagTree scope place name mods block).Alike (fun _ _ => True) binding (tagTree scope place' name mods' block') := by
  -- The lists of modifiers need not be alike; those of one kind are, and the tag asks for nothing else.
  refine Node.Alike.tag_of_kinds trivial name ?_ ?_ ?_ hblock
  · rw [← lastId_filter mods, ← lastId_filter mods']
    exact Modifier.lastId_alike (h.alike .id)
  · rw [← classes_filter mods, ← classes_filter mods']
    exact Modifier.classes_alike (h.alike .styleClass)
  · rw [← attrs_filter mods, ← attrs_filter mods']
    exact Modifier.attrs_alike (h.alike .attr)

end

end Grammar

/-! ## The main statement -/

/-- A render bounds the calls that are nested, and otherwise follows the tree. -/
theorem Stage.exists_invoke (stage : Stage σ) (depth : Nat) :
    ∃ invoke, ∀ tree, stage.renderTree depth tree = tree.render stage invoke := by
  cases depth with
  | zero => exact ⟨_, fun _ => rfl⟩
  | succ depth => exact ⟨_, fun _ => rfl⟩

theorem Grammar.nodes_tag (scope : CallScope) (place : Location) (name : String) (mods : List TagModifier)
    (block : Option Block) : (Item.tag place name mods block).nodes scope = [tagTree scope place name mods block] := by
  cases block with
  | none => rfl
  | some block => rfl

/-- **How a tag is rendered.** A tag with any modifiers in any order, with or without a block, is read as one tree
    wherever it stands in a block. In any environment this tree, flattened or not, writes the pieces of its opening tag
    and fails with the first error among them; without an error it goes on with the content and the closing tag. Tags
    whose modifiers of each kind are the same have the same tree but for places, and they are if modifiers of different
    kinds have changed places. -/
theorem tag_composition (scope : CallScope) (place : Location) (name : String) (mods : List TagModifier)
    (block : Option Block) :
    (∀ (xs ys : List Item) (rbrace : Location) (rest : List Token) (bound : Nat),
      (Item.allTokens (xs ++ .tag place name mods block :: ys)).length < bound →
        Definition.items scope bound
            (Item.allTokens (xs ++ .tag place name mods block :: ys) ++ rbrace.token .rbrace :: rest) =
          .ok (Item.allNodes scope xs ++ tagTree scope place name mods block :: Item.allNodes scope ys) rest) ∧
    (∀ {σ : Type} (stage : Stage σ) (depth : Nat) (environment : Environment) (tree : Node),
      tree = tagTree scope place name mods block ∨ tree = (tagTree scope place name mods block).flatten →
        stage.renderTree depth tree environment = do
          .emitAll (opening stage environment name mods)
          block.elim (pure ()) fun block => stage.renderTree depth (block.node scope) environment
          .emit ("</" ++ name ++ ">")) ∧
    (∀ (place' : Location) (mods' : List TagModifier) (block' : Option Block), SameByKind mods mods' →
      Option.Rel (Node.Alike (fun _ _ => True) sameBinding)
          (block.map (Block.node scope)) (block'.map (Block.node scope)) →
        (tagTree scope place name mods block).Alike (fun _ _ => True) sameBinding
          (tagTree scope place' name mods' block')) ∧
    ∀ (front more : List TagModifier) (mod mod' : TagModifier), mod.kind ≠ mod'.kind →
      mods = front ++ mod :: mod' :: more → SameByKind mods (front ++ mod' :: mod :: more) := by
  refine ⟨?_, ?_, ?_, ?_⟩
  · intro xs ys rbrace rest bound hbound
    rw [(Definition.complete scope bound).1 _ rbrace rest hbound, allNodes_append, Item.allNodes, nodes_tag,
      List.singleton_append]
  · intro σ stage depth environment tree htree
    obtain ⟨invoke, hinvoke⟩ := stage.exists_invoke depth
    simp only [hinvoke]
    rw [← render_tagTree]
    obtain rfl | rfl := htree
    · rfl
    · exact Node.render_flatten stage invoke _ environment
  · intro place' mods' block' hmods hblock
    exact tagTree_alike hmods scope place place' name hblock
  · rintro front more mod mod' hkind rfl
    exact SameByKind.swap hkind front more

/-- A class that has no value fails behind the id, and the tag is the same with the id in front. -/
theorem tag_composition_missing :
    (Engine.new true : Engine Unit).stage.renderTree 0
        (tagTree ⟨0, fun _ => false⟩ default "p"
          [.styleClass default (.reference default ⟨["gone"], false⟩), .id default (.ident default "x")] none)
        (.params (.map [])) ⟨"", ()⟩ =
      (.error (.error (.paramNotFound default "gone" ["gone"])), ⟨"<p id=\"x\" class=\"", ()⟩) ∧
    (tagTree ⟨0, fun _ => false⟩ default "p"
        [.styleClass default (.reference default ⟨["gone"], false⟩), .id default (.ident default "x")] none).Alike
      (fun _ _ => True) sameBinding
      (tagTree ⟨0, fun _ => false⟩ default "p"
        [.id default (.ident default "x"), .styleClass default (.reference default ⟨["gone"], false⟩)] none) := by
  obtain ⟨-, hrender, halike, hswap⟩ := tag_composition ⟨0, fun _ => false⟩ default "p"
    [.styleClass default (.reference default ⟨["gone"], false⟩), .id default (.ident default "x")] none
  constructor
  · rw [hrender _ 0 _ _ (.inl rfl)]
    decide +kernel
  · exact halike default _ none (hswap [] [] _ _ (by decide) rfl) .none

example :
    ((Engine.new true : Engine Unit).compile
        "def t \x7b p.a#x[k=\"1\"].b#y[k=\"2\"] \x7b ~in~ \x7d \x7d" "t.tl").1.render 0 "t" (.map []) () =
      (.ok "<p id=\"y\" class=\"a b\" k=\"1\" k=\"2\">in</p>", ()) := by
  decide +kernel

end HtmlTemplate
