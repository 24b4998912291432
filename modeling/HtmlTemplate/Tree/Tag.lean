import HtmlTemplate.Tree.Basic

/-!
# Tags

An HTML element is no node of its own. It is the body of the literals and values that make up its opening
tag, its content and its closing tag.

## Contents

* `Modifier` — what can be said about a tag: its id, a class, an attribute;
* `Modifier.lastId`, `Modifier.classes`, `Modifier.attrs` — the modifiers of one kind, which are among all of them
  (`Modifier.mem_of_lastId`, `Modifier.mem_of_mem_classes`, `Modifier.mem_of_mem_attrs`);
* `Node.tag` — the tree of an element.
-/

namespace HtmlTemplate

/-- Something said about a tag. -/
inductive Modifier where
  | id (value : Node)
  | styleClass (value : Node)
  | attr (name : String) (value : Node)
deriving Inhabited

namespace Modifier

/-- The id of a tag, which is the last one given. -/
def lastId (modifiers : List Modifier) : Option Node :=
  (modifiers.filterMap fun | id value => some value | _ => none).getLast?

/-- The classes of a tag, in the order given. -/
def classes (modifiers : List Modifier) : List Node :=
  modifiers.filterMap fun | styleClass value => some value | _ => none

/-- The attributes of a tag, in the order given, repeated ones repeated. -/
def attrs (modifiers : List Modifier) : List (String × Node) :=
  modifiers.filterMap fun | attr name value => some (name, value) | _ => none

variable {modifiers : List Modifier} {value : Node}

theorem mem_of_lastId (h : lastId modifiers = some value) : id value ∈ modifiers := by
  obtain ⟨modifier, hmodifier, hvalue⟩ := List.mem_filterMap.mp (List.mem_of_getLast? h)
  cases modifier <;> cases hvalue
  exact hmodifier

theorem mem_of_mem_classes (h : value ∈ classes modifiers) : styleClass value ∈ modifiers := by
  obtain ⟨modifier, hmodifier, hvalue⟩ := List.mem_filterMap.mp h
  cases modifier <;> cases hvalue
  exact hmodifier

theorem mem_of_mem_attrs {name : String} (h : (name, value) ∈ attrs modifiers) : attr name value ∈ modifiers := by
  obtain ⟨modifier, hmodifier, hvalue⟩ := List.mem_filterMap.mp h
  cases modifier <;> cases hvalue
  exact hmodifier

end Modifier

namespace Node

/-- An attribute as it stands in an opening tag, the nodes of its value between the quotes. -/
def inAttribute (location : Location) (name : String) (value : List Node) : List Node :=
  literal location (" " ++ name ++ "=\"") :: value ++ [literal location "\""]

/-- The element `name` with its modifiers and content. The literals all stand at `location`. The id comes
    first, then the classes in one attribute, then the attributes. -/
def tag (location : Location) (name : String) (modifiers : List Modifier) (content : Option Node) :
    Node :=
  let id := (Modifier.lastId modifiers).elim [] fun value => inAttribute location "id" [value]
  let classes :=
    match Modifier.classes modifiers with
    | [] => []
    | values => inAttribute location "class" (values.intersperse (literal location " "))
  let attrs := (Modifier.attrs modifiers).flatMap fun (key, value) =>
    inAttribute location key [value]
  body location <|
    literal location ("<" ++ name) :: id ++ classes ++ attrs ++
      literal location ">" :: content.toList ++ [literal location ("</" ++ name ++ ">")]

end Node

end HtmlTemplate
