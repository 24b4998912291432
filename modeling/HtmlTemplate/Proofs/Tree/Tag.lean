import HtmlTemplate.Tree.Tag

/-!
# The nodes of a tag

A tag is a body of literals, of the values of its modifiers, and of its content. So what holds of literals and of what
is said in the tag holds of all of its children (`Node.forall_tag`).

## Contents

* `Modifier.value` — the node that a modifier says something with;
* `Node.forall_tag` — what the children of a tag have in common.
-/

namespace HtmlTemplate

/-- The node that a modifier says something with. -/
def Modifier.value : Modifier → Node
  | id value | styleClass value | attr _ value => value

namespace Node

variable {P : Node → Prop} {location : Location}

theorem forall_inAttribute (hliteral : ∀ text, P (literal location text)) {name : String} {value : List Node}
    (hvalue : ∀ node ∈ value, P node) : ∀ node ∈ inAttribute location name value, P node := by
  intro node hnode
  rcases List.mem_append.mp hnode with hfront | hlast
  · exact (List.forall_mem_cons.mpr ⟨hliteral _, hvalue⟩) node hfront
  · rw [List.mem_singleton.mp hlast]
    exact hliteral _

theorem forall_intersperse (hliteral : ∀ text, P (literal location text)) {text : String} {nodes : List Node}
    (h : ∀ node ∈ nodes, P node) : ∀ node ∈ nodes.intersperse (literal location text), P node := by
  induction nodes with
  | nil => exact h
  | cons node nodes ih =>
    cases nodes with
    | nil => exact h
    | cons next nodes =>
      obtain ⟨hnode, hnodes⟩ := List.forall_mem_cons.mp h
      rw [List.intersperse_cons_cons]
      exact List.forall_mem_cons.mpr ⟨hnode, List.forall_mem_cons.mpr ⟨hliteral text, ih hnodes⟩⟩

/-- **What the children of a tag have in common.** They are literals, values of modifiers, and the content. -/
theorem forall_tag (hliteral : ∀ text, P (literal location text)) {name : String} {modifiers : List Modifier}
    {content : Option Node} (hmodifiers : ∀ modifier ∈ modifiers, P modifier.value) (hcontent : ∀ node ∈ content, P node) :
    ∃ children, tag location name modifiers content = body location children ∧ ∀ child ∈ children, P child := by
  refine ⟨_, rfl, ?_⟩
  simp only [List.forall_mem_append, List.forall_mem_cons]
  refine ⟨⟨⟨⟨⟨hliteral _, ?hid⟩, ?hclasses⟩, ?hattrs⟩, hliteral _, ?hcontent⟩, hliteral _, List.forall_mem_nil _⟩
  case hid =>
    cases hid : Modifier.lastId modifiers with
    | none => exact List.forall_mem_nil _
    | some value =>
      have hvalue : P value := hmodifiers (.id value) (Modifier.mem_of_lastId hid)
      exact forall_inAttribute hliteral (List.forall_mem_singleton.mpr hvalue)
  case hclasses =>
    have hvalues : ∀ value ∈ Modifier.classes modifiers, P value :=
      fun value hvalue => hmodifiers (.styleClass value) (Modifier.mem_of_mem_classes hvalue)
    split
    · exact List.forall_mem_nil _
    · exact forall_inAttribute hliteral (forall_intersperse hliteral hvalues)
  case hattrs =>
    intro node hnode
    obtain ⟨⟨key, value⟩, hattr, hnode⟩ := List.mem_flatMap.mp hnode
    have hvalue : P value := hmodifiers (.attr key value) (Modifier.mem_of_mem_attrs hattr)
    exact forall_inAttribute hliteral (List.forall_mem_singleton.mpr hvalue) node hnode
  case hcontent => exact fun node hnode => hcontent node (Option.mem_toList.mp hnode)

end Node

end HtmlTemplate
