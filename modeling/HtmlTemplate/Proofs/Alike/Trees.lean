import Mathlib.Data.List.Forall2
import HtmlTemplate.Definition.OfTokens
import HtmlTemplate.Tree.Flatten

/-!
# Trees and tokens that are alike

The same text read in another source, or in front of other definitions, gives the same tokens and the same trees but
for where they stand and for the tables that the calls look into. Here this is a relation. Which places may stand
for one another is a parameter of it, and so is which bindings a call of a name may have.

## Contents

* `Token.Alike`, `SyntaxError.Alike` — tokens and errors that differ in places only;
* `Node.Alike` — trees that differ in places and bindings only;
* `Node.Alike.ofReference`, `.ofLiteral`, `.tag`, `setArgument_alike` — what is made of things that are alike;
* `Node.Alike.flatten` — flattening them;
* `Node.Alike.refl`, `.trans`, `.mono` — trees that are the same, and other places that may stand for one another.
-/

namespace HtmlTemplate

/-! ## Tokens -/

/-- The tokens say the same, and stand at places that may stand for one another. -/
inductive Token.Alike (place : Location → Location → Prop) : Token → Token → Prop where
  | literal {segments segments' : List (Segment × Range)} {range range' : Range} {file file' : Nat}
    (hplace : place ⟨file, range⟩ ⟨file', range'⟩)
    (hsegments : List.Forall₂ (fun segment segment' =>
      segment.1 = segment'.1 ∧ place ⟨file, segment.2⟩ ⟨file', segment'.2⟩) segments segments') :
    Alike place ⟨.literal segments, range, file⟩ ⟨.literal segments', range', file'⟩
  | other {kind : TokenKind Range} {range range' : Range} {file file' : Nat}
    (hplace : place ⟨file, range⟩ ⟨file', range'⟩) (hkind : ∀ segments, kind ≠ .literal segments) :
    Alike place ⟨kind, range, file⟩ ⟨kind, range', file'⟩

variable {place : Location → Location → Prop}

/-- A token is like itself in another source. -/
theorem Token.alike_of_range {file file' : Nat} (hplace : ∀ range, place ⟨file, range⟩ ⟨file', range⟩)
    (kind : TokenKind Range) (range : Range) : Token.Alike place ⟨kind, range, file⟩ ⟨kind, range, file'⟩ := by
  by_cases hliteral : ∃ segments, kind = .literal segments
  · obtain ⟨segments, rfl⟩ := hliteral
    refine .literal (hplace range) (List.forall₂_same.mpr fun segment _ => ⟨rfl, hplace _⟩)
  · exact .other (hplace range) fun segments heq => hliteral ⟨segments, heq⟩

theorem Token.Alike.location {token token' : Token} (h : token.Alike place token') :
    place token.location token'.location := by
  cases h with
  | literal hplace _ => exact hplace
  | other hplace _ => exact hplace

/-- The errors are the same, but for where their tokens stand. -/
inductive SyntaxError.Alike (place : Location → Location → Prop) : SyntaxError → SyntaxError → Prop where
  | fault (cause : SyntaxFault) {token token' : Token} (h : token.Alike place token') :
    Alike place (.fault cause token) (.fault cause token')
  | endOfTokens (file file' : Nat) : Alike place (.endOfTokens file) (.endOfTokens file')

/-! ## Trees -/

namespace Node

mutual

/-- The trees differ in places and bindings only, and there only as allowed. -/
inductive Alike (place : Location → Location → Prop) (binding : String → Binding → Binding → Prop) :
    Node → Node → Prop where
  | literal {location location' : Location} (hplace : place location location') (text : String) :
    Alike place binding (.literal location text) (.literal location' text)
  | deferred {location location' : Location} {inner inner' : Node} (hplace : place location location')
    (hinner : Alike place binding inner inner') :
    Alike place binding (.deferred location inner) (.deferred location' inner')
  | reference {location location' : Location} (hplace : place location location') (mode : RefMode) (path : Path) :
    Alike place binding (.reference location mode path) (.reference location' mode path)
  | call {location location' : Location} {target target' : Binding} {args args' : List (String × Node)}
    (hplace : place location location') (name : String) (hbinding : binding name target target')
    (hargs : List.Forall₂ (ArgAlike place binding) args args') :
    Alike place binding (.call location target name args) (.call location' target' name args')
  | body {location location' : Location} {children children' : List Node} (hplace : place location location')
    (hchildren : List.Forall₂ (Alike place binding) children children') :
    Alike place binding (.body location children) (.body location' children')

/-- The arguments have the same name, and trees that are alike. -/
inductive ArgAlike (place : Location → Location → Prop) (binding : String → Binding → Binding → Prop) :
    String × Node → String × Node → Prop where
  | arg (name : String) {value value' : Node} (hvalue : Alike place binding value value') :
    ArgAlike place binding (name, value) (name, value')

end

end Node

/-- The modifiers of a tag say the same. -/
inductive Modifier.Alike (place : Location → Location → Prop) (binding : String → Binding → Binding → Prop) :
    Modifier → Modifier → Prop where
  | id {value value' : Node} (h : value.Alike place binding value') : Alike place binding (.id value) (.id value')
  | styleClass {value value' : Node} (h : value.Alike place binding value') :
    Alike place binding (.styleClass value) (.styleClass value')
  | attr (name : String) {value value' : Node} (h : value.Alike place binding value') :
    Alike place binding (.attr name value) (.attr name value')

variable {binding : String → Binding → Binding → Prop}

/-- An argument that is given in both lists takes the same place in them. -/
theorem setArgument_alike {args args' : List (String × Node)}
    (hargs : List.Forall₂ (Node.ArgAlike place binding) args args') (name : String) {value value' : Node}
    (hvalue : value.Alike place binding value') :
    List.Forall₂ (Node.ArgAlike place binding) (setArgument name value args) (setArgument name value' args') := by
  induction hargs with
  | nil => exact .cons (.arg name hvalue) .nil
  | cons harg hmore ih =>
    cases harg with
    | arg key hold =>
      rw [setArgument, setArgument]
      by_cases hkey : key = name
      · rw [if_pos hkey, if_pos hkey]
        exact .cons (.arg key hvalue) hmore
      · rw [if_neg hkey, if_neg hkey]
        exact .cons (.arg key hold) ih

/-! ## Tags -/

namespace Modifier

variable {modifiers modifiers' : List Modifier}

theorem getLast?_alike {nodes nodes' : List Node} (h : List.Forall₂ (Node.Alike place binding) nodes nodes') :
    Option.Rel (Node.Alike place binding) nodes.getLast? nodes'.getLast? := by
  induction h with
  | nil => exact .none
  | cons hnode hmore ih =>
    cases hmore with
    | nil => exact .some hnode
    | cons _ _ => simpa only [List.getLast?_cons_cons] using ih

theorem lastId_alike (h : List.Forall₂ (Modifier.Alike place binding) modifiers modifiers') :
    Option.Rel (Node.Alike place binding) (lastId modifiers) (lastId modifiers') := by
  apply getLast?_alike
  induction h with
  | nil => exact .nil
  | cons hmodifier _ ih =>
    cases hmodifier with
    | id hvalue => exact .cons hvalue ih
    | styleClass _ => exact ih
    | attr _ _ => exact ih

theorem classes_alike (h : List.Forall₂ (Modifier.Alike place binding) modifiers modifiers') :
    List.Forall₂ (Node.Alike place binding) (classes modifiers) (classes modifiers') := by
  induction h with
  | nil => exact .nil
  | cons hmodifier _ ih =>
    cases hmodifier with
    | id _ => exact ih
    | styleClass hvalue => exact .cons hvalue ih
    | attr _ _ => exact ih

theorem attrs_alike (h : List.Forall₂ (Modifier.Alike place binding) modifiers modifiers') :
    List.Forall₂ (Node.ArgAlike place binding) (attrs modifiers) (attrs modifiers') := by
  induction h with
  | nil => exact .nil
  | cons hmodifier _ ih =>
    cases hmodifier with
    | id _ => exact ih
    | styleClass _ => exact ih
    | attr name hvalue => exact .cons (.arg name hvalue) ih

end Modifier

/-- What separates the elements of both lists is related as they are. -/
theorem rel_intersperse {α β : Type} {R : α → β → Prop} {sep : α} {sep' : β} (hsep : R sep sep') {xs : List α}
    {ys : List β} (h : List.Forall₂ R xs ys) : List.Forall₂ R (xs.intersperse sep) (ys.intersperse sep') := by
  induction h with
  | nil => exact .nil
  | cons hx hmore ih =>
    cases hmore with
    | nil => exact .cons hx .nil
    | cons _ _ => exact .cons hx (.cons hsep ih)

namespace Node.Alike

variable {location location' : Location}

theorem inAttribute (hplace : place location location') (name : String) {value value' : List Node}
    (hvalue : List.Forall₂ (Node.Alike place binding) value value') :
    List.Forall₂ (Node.Alike place binding) (Node.inAttribute location name value)
      (Node.inAttribute location' name value') := by
  have hend : List.Forall₂ (Node.Alike place binding) [.literal location "\""] [.literal location' "\""] :=
    .cons (.literal hplace _) .nil
  exact .cons (.literal hplace _) (List.rel_append hvalue hend)

/-- The classes in one attribute, if there are any. -/
theorem inClass (hplace : place location location') {values values' : List Node} :
    List.Forall₂ (Node.Alike place binding) values values' →
      List.Forall₂ (Node.Alike place binding)
        (match values with
          | [] => []
          | values => Node.inAttribute location "class" (values.intersperse (.literal location " ")))
        (match values' with
          | [] => []
          | values => Node.inAttribute location' "class" (values.intersperse (.literal location' " "))) := by
  intro h
  cases h with
  | nil => exact .nil
  | cons hvalue hvalues =>
    exact inAttribute hplace "class" (rel_intersperse (.literal hplace " ") (.cons hvalue hvalues))

/-- Tags are alike when what their trees are made of is. The order of modifiers of different kinds is no part of it. -/
theorem tag_of_kinds (hplace : place location location') (name : String) {modifiers modifiers' : List Modifier}
    (hlast : Option.Rel (Node.Alike place binding) (Modifier.lastId modifiers) (Modifier.lastId modifiers'))
    (hclasses : List.Forall₂ (Node.Alike place binding) (Modifier.classes modifiers) (Modifier.classes modifiers'))
    (hattrs : List.Forall₂ (Node.ArgAlike place binding) (Modifier.attrs modifiers) (Modifier.attrs modifiers'))
    {content content' : Option Node} (hcontent : Option.Rel (Node.Alike place binding) content content') :
    (Node.tag location name modifiers content).Alike place binding
      (Node.tag location' name modifiers' content') := by
  have hliteral : ∀ text : String, (Node.literal location text).Alike place binding (.literal location' text) :=
    .literal hplace
  have hid : List.Forall₂ (Node.Alike place binding)
      ((Modifier.lastId modifiers).elim [] fun value => Node.inAttribute location "id" [value])
      ((Modifier.lastId modifiers').elim [] fun value => Node.inAttribute location' "id" [value]) := by
    generalize Modifier.lastId modifiers = last, Modifier.lastId modifiers' = last' at hlast
    cases hlast with
    | none => exact .nil
    | some hvalue => exact inAttribute hplace "id" (.cons hvalue .nil)
  have hinner : List.Forall₂ (Node.Alike place binding) content.toList content'.toList := by
    cases hcontent with
    | none => exact .nil
    | some hinner => exact .cons hinner .nil
  have hfront := List.rel_append (List.Forall₂.cons (hliteral ("<" ++ name)) hid) (inClass hplace hclasses)
  have hrest : List.Forall₂ (Node.Alike place binding) (.literal location ">" :: content.toList)
      (.literal location' ">" :: content'.toList) := .cons (hliteral ">") hinner
  have hend : List.Forall₂ (Node.Alike place binding) [.literal location ("</" ++ name ++ ">")]
      [.literal location' ("</" ++ name ++ ">")] := .cons (hliteral _) .nil
  refine .body hplace (List.rel_append (List.rel_append (List.rel_append hfront ?_) hrest) hend)
  apply List.rel_flatMap hattrs
  intro arg arg' harg
  cases harg with
  | arg key hvalue => exact inAttribute hplace key (.cons hvalue .nil)

/-- **Tags with modifiers and content that are alike are alike.** -/
theorem tag (hplace : place location location') (name : String) {modifiers modifiers' : List Modifier}
    (hmodifiers : List.Forall₂ (Modifier.Alike place binding) modifiers modifiers') {content content' : Option Node}
    (hcontent : Option.Rel (Node.Alike place binding) content content') :
    (Node.tag location name modifiers content).Alike place binding
      (Node.tag location' name modifiers' content') :=
  tag_of_kinds hplace name (Modifier.lastId_alike hmodifiers) (Modifier.classes_alike hmodifiers)
    (Modifier.attrs_alike hmodifiers) hcontent

/-! ## References and literals -/

theorem ofReference (hplace : place location location') (ref : Reference) :
    (Node.ofReference location ref).Alike place binding (Node.ofReference location' ref) :=
  .reference hplace _ _

theorem ofLiteral {segments segments' : List (Segment × Range)} {range range' : Range} {file file' : Nat}
    (hplace : place ⟨file, range⟩ ⟨file', range'⟩)
    (hsegments : List.Forall₂ (fun segment segment' =>
      segment.1 = segment'.1 ∧ place ⟨file, segment.2⟩ ⟨file', segment'.2⟩) segments segments')
    (kind kind' : TokenKind Range) :
    (Node.ofLiteral ⟨kind, range, file⟩ segments).Alike place binding
      (Node.ofLiteral ⟨kind', range', file'⟩ segments') := by
  unfold Node.ofLiteral
  generalize hnodes : List.map _ segments = nodes, hnodes' : List.map _ segments' = nodes'
  have halike : List.Forall₂ (Node.Alike place binding) nodes nodes' := by
    rw [← hnodes, ← hnodes']
    apply List.rel_map _ hsegments
    rintro ⟨segment, range⟩ ⟨_, range'⟩ ⟨rfl, hsegment⟩
    cases segment with
    | text text => exact .literal hsegment text
    | reference ref => exact ofReference hsegment ref
  cases halike with
  | nil => exact .literal hplace ""
  | cons hfirst hmore =>
    cases hmore with
    | nil => exact hfirst
    | cons hsecond hmore => exact .body hplace (.cons hfirst (.cons hsecond hmore))

end Node.Alike

/-! ## Flattening -/

/-- Literals meet in both lists, or in none. -/
theorem mergeLiterals_alike {nodes nodes' : List Node} (h : List.Forall₂ (Node.Alike place binding) nodes nodes') :
    List.Forall₂ (Node.Alike place binding) (mergeLiterals nodes) (mergeLiterals nodes') := by
  induction h with
  | nil => exact .nil
  | cons hnode hmore ih =>
    rename_i node node' nodes nodes'
    cases hnode with
    | literal hplace text =>
      rw [mergeLiterals, mergeLiterals]
      generalize mergeLiterals nodes = merged, mergeLiterals nodes' = merged' at ih
      cases ih with
      | nil => exact .cons (.literal hplace text) .nil
      | cons hnext hrest =>
        have hapart := List.Forall₂.cons (Node.Alike.literal hplace text) (.cons hnext hrest)
        cases hnext with
        | literal _ more => exact .cons (.literal hplace _) hrest
        | _ => exact hapart
    | deferred hplace hinner => exact .cons (.deferred hplace hinner) ih
    | reference hplace mode path => exact .cons (.reference hplace mode path) ih
    | call hplace name hbinding hargs => exact .cons (.call hplace name hbinding hargs) ih
    | body hplace hchildren => exact .cons (.body hplace hchildren) ih

namespace Node.Alike

theorem splice {node node' : Node} (h : node.Alike place binding node') :
    List.Forall₂ (Node.Alike place binding) node.splice node'.splice := by
  cases h with
  | body _ hchildren => exact hchildren
  | literal hplace text => exact .cons (.literal hplace text) .nil
  | deferred hplace hinner => exact .cons (.deferred hplace hinner) .nil
  | reference hplace mode path => exact .cons (.reference hplace mode path) .nil
  | call hplace name hbinding hargs => exact .cons (.call hplace name hbinding hargs) .nil

mutual

/-- **Trees that are alike are alike when flattened.** -/
theorem flatten : ∀ {node node' : Node}, node.Alike place binding node' →
    node.flatten.Alike place binding node'.flatten
  | _, _, .literal hplace text => .literal hplace text
  | _, _, .reference hplace mode path => .reference hplace mode path
  | _, _, .deferred hplace hinner => .deferred hplace (flatten hinner)
  | _, _, .call hplace name hbinding hargs => .call hplace name hbinding (flattenArgs hargs)
  | _, _, .body hplace hchildren => .body hplace (mergeLiterals_alike (flattenAll hchildren))

theorem flattenAll : ∀ {nodes nodes' : List Node}, List.Forall₂ (Node.Alike place binding) nodes nodes' →
    List.Forall₂ (Node.Alike place binding) (Node.flattenAll nodes) (Node.flattenAll nodes')
  | _, _, .nil => .nil
  | _, _, .cons hnode hnodes => List.rel_append (splice (flatten hnode)) (flattenAll hnodes)

theorem flattenArgs : ∀ {args args' : List (String × Node)}, List.Forall₂ (ArgAlike place binding) args args' →
    List.Forall₂ (ArgAlike place binding) (Node.flattenArgs args) (Node.flattenArgs args')
  | _, _, .nil => .nil
  | _, _, .cons (.arg name hvalue) hargs => .cons (.arg name (flatten hvalue)) (flattenArgs hargs)

end

end Node.Alike

/-! ## More and fewer places -/

namespace Node.Alike

variable {place' : Location → Location → Prop}

mutual

/-- A tree is like itself. -/
theorem refl (hplace : ∀ location, place location location) (hbinding : ∀ name target, binding name target target) :
    ∀ node : Node, node.Alike place binding node
  | .literal location text => .literal (hplace location) text
  | .reference location mode path => .reference (hplace location) mode path
  | .deferred location inner => .deferred (hplace location) (refl hplace hbinding inner)
  | .call location target name args =>
    .call (hplace location) name (hbinding name target) (reflArgs hplace hbinding args)
  | .body location children => .body (hplace location) (reflAll hplace hbinding children)

theorem reflAll (hplace : ∀ location, place location location) (hbinding : ∀ name target, binding name target target) :
    ∀ nodes : List Node, List.Forall₂ (Node.Alike place binding) nodes nodes
  | [] => .nil
  | node :: nodes => .cons (refl hplace hbinding node) (reflAll hplace hbinding nodes)

theorem reflArgs (hplace : ∀ location, place location location)
    (hbinding : ∀ name target, binding name target target) :
    ∀ args : List (String × Node), List.Forall₂ (ArgAlike place binding) args args
  | [] => .nil
  | (name, node) :: args => .cons (.arg name (refl hplace hbinding node)) (reflArgs hplace hbinding args)

end

mutual

/-- More places may stand for one another. -/
theorem mono (hplace : ∀ location location', place location location' → place' location location') :
    ∀ {node node' : Node}, node.Alike place binding node' → node.Alike place' binding node'
  | _, _, .literal h text => .literal (hplace _ _ h) text
  | _, _, .reference h mode path => .reference (hplace _ _ h) mode path
  | _, _, .deferred h hinner => .deferred (hplace _ _ h) (mono hplace hinner)
  | _, _, .call h name hbinding hargs => .call (hplace _ _ h) name hbinding (monoArgs hplace hargs)
  | _, _, .body h hchildren => .body (hplace _ _ h) (monoAll hplace hchildren)

theorem monoAll (hplace : ∀ location location', place location location' → place' location location') :
    ∀ {nodes nodes' : List Node}, List.Forall₂ (Node.Alike place binding) nodes nodes' →
      List.Forall₂ (Node.Alike place' binding) nodes nodes'
  | _, _, .nil => .nil
  | _, _, .cons hnode hnodes => .cons (mono hplace hnode) (monoAll hplace hnodes)

theorem monoArgs (hplace : ∀ location location', place location location' → place' location location') :
    ∀ {args args' : List (String × Node)}, List.Forall₂ (ArgAlike place binding) args args' →
      List.Forall₂ (ArgAlike place' binding) args args'
  | _, _, .nil => .nil
  | _, _, .cons (.arg name hvalue) hargs => .cons (.arg name (mono hplace hvalue)) (monoArgs hplace hargs)

end

mutual

/-- Trees that are like the same tree are alike. -/
theorem trans (hplace : ∀ a b c, place a b → place b c → place a c)
    (hbinding : ∀ name a b c, binding name a b → binding name b c → binding name a c) :
    ∀ {node node' other : Node}, node.Alike place binding node' → node'.Alike place binding other →
      node.Alike place binding other
  | _, _, _, .literal h text, .literal h' _ => .literal (hplace _ _ _ h h') text
  | _, _, _, .reference h mode path, .reference h' _ _ => .reference (hplace _ _ _ h h') mode path
  | _, _, _, .deferred h hinner, .deferred h' hinner' =>
    .deferred (hplace _ _ _ h h') (trans hplace hbinding hinner hinner')
  | _, _, _, .call h name htarget hargs, .call h' _ htarget' hargs' =>
    .call (hplace _ _ _ h h') name (hbinding _ _ _ _ htarget htarget') (transArgs hplace hbinding hargs hargs')
  | _, _, _, .body h hchildren, .body h' hchildren' =>
    .body (hplace _ _ _ h h') (transAll hplace hbinding hchildren hchildren')

theorem transAll (hplace : ∀ a b c, place a b → place b c → place a c)
    (hbinding : ∀ name a b c, binding name a b → binding name b c → binding name a c) :
    ∀ {nodes nodes' others : List Node}, List.Forall₂ (Node.Alike place binding) nodes nodes' →
      List.Forall₂ (Node.Alike place binding) nodes' others → List.Forall₂ (Node.Alike place binding) nodes others
  | _, _, _, .nil, .nil => .nil
  | _, _, _, .cons hnode hnodes, .cons hnode' hnodes' =>
    .cons (trans hplace hbinding hnode hnode') (transAll hplace hbinding hnodes hnodes')

theorem transArgs (hplace : ∀ a b c, place a b → place b c → place a c)
    (hbinding : ∀ name a b c, binding name a b → binding name b c → binding name a c) :
    ∀ {args args' others : List (String × Node)}, List.Forall₂ (ArgAlike place binding) args args' →
      List.Forall₂ (ArgAlike place binding) args' others → List.Forall₂ (ArgAlike place binding) args others
  | _, _, _, .nil, .nil => .nil
  | _, _, _, .cons (.arg name hvalue) hargs, .cons (.arg _ hvalue') hargs' =>
    .cons (.arg name (trans hplace hbinding hvalue hvalue')) (transArgs hplace hbinding hargs hargs')

end

end Node.Alike

end HtmlTemplate
