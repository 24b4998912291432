import HtmlTemplate.Token.Basic

/-!
# Template trees

A compiled template is a tree of nodes. Each node knows where in the sources it came from, and what it
emits when the template is rendered.

## Contents

* `RefMode`, `Binding`, `Node` — the trees;
* `Node.location`, `Node.withLocation` — the place of the root;
* `Node.same`, and the decidable equality of trees built from it;
* `setArgument` — giving a call argument its value.
-/

namespace HtmlTemplate

/-- What becomes of the value that a reference stands for. -/
inductive RefMode where
  /-- The value itself is a call argument. -/
  | passed
  /-- Its text is emitted as it is. -/
  | raw
  /-- Its text is emitted with HTML delimiters replaced. -/
  | escaped
deriving DecidableEq, Inhabited

/-- Which table the target of a call is looked up in. -/
inductive Binding where
  /-- The template had been defined in the engine before the call was read. -/
  | internal
  /-- Whatever goes by the name when the call is rendered. -/
  | external
deriving DecidableEq, Inhabited

/-- A template tree. -/
inductive Node where
  /-- Fixed text. -/
  | literal (location : Location) (text : String)
  /-- A call argument that is rendered to text before the call. -/
  | deferred (location : Location) (body : Node)
  /-- A parameter. -/
  | reference (location : Location) (mode : RefMode) (path : Path)
  /-- A call of another template with named arguments. -/
  | call (location : Location) (binding : Binding) (name : String) (args : List (String × Node))
  /-- Some nodes one after the other. -/
  | body (location : Location) (children : List Node)
deriving Inhabited

namespace Node

/-- Where the node came from. -/
def location : Node → Location
  | literal loc _ | deferred loc _ | reference loc _ _ | call loc _ _ _ | body loc _ => loc

/-- The node of a parameter reference. -/
def ofReference (location : Location) (ref : Reference) : Node :=
  reference location (if ref.escape then .escaped else .raw) ref.path

/-! ## Equality -/

mutual

/-- Whether two trees are equal, locations included. -/
def same : Node → Node → Bool
  | literal l t, literal l' t' => l = l' && t = t'
  | deferred l b, deferred l' b' => l = l' && b.same b'
  | reference l m p, reference l' m' p' => l = l' && m = m' && p = p'
  | call l b n args, call l' b' n' args' => l = l' && b = b' && n = n' && sameArgs args args'
  | body l cs, body l' cs' => l = l' && sameAll cs cs'
  | _, _ => false

/-- Whether two lists of trees are equal. -/
def sameAll : List Node → List Node → Bool
  | [], [] => true
  | n :: ns, n' :: ns' => n.same n' && sameAll ns ns'
  | _, _ => false

/-- Whether two argument lists are equal. -/
def sameArgs : List (String × Node) → List (String × Node) → Bool
  | [], [] => true
  | (k, n) :: ns, (k', n') :: ns' => k = k' && n.same n' && sameArgs ns ns'
  | _, _ => false

end

mutual

theorem same_iff : ∀ a b : Node, a.same b = true ↔ a = b
  | literal _ _, b => by cases b <;> simp [same]
  | deferred _ inner, b => by cases b <;> simp [same, same_iff inner]
  | reference _ _ _, b => by cases b <;> simp [same, and_assoc]
  | call _ _ _ args, b => by cases b <;> simp [same, sameArgs_iff args, and_assoc]
  | body _ children, b => by cases b <;> simp [same, sameAll_iff children]

theorem sameAll_iff : ∀ a b : List Node, sameAll a b = true ↔ a = b
  | [], b => by cases b <;> simp [sameAll]
  | n :: ns, b => by cases b <;> simp [sameAll, same_iff n, sameAll_iff ns]

theorem sameArgs_iff : ∀ a b : List (String × Node), sameArgs a b = true ↔ a = b
  | [], b => by cases b <;> simp [sameArgs]
  | (_, n) :: ns, b => by
    cases b <;> simp [sameArgs, same_iff n, sameArgs_iff ns, Prod.ext_iff]

end

instance : DecidableEq Node := fun a b => decidable_of_iff _ (same_iff a b)

end Node

/-! ## Arguments -/

/-- Gives the argument `name` a value. An argument that was given before keeps its place and loses its
    former value. -/
def setArgument {α : Type} (name : String) (value : α) : List (String × α) → List (String × α)
  | [] => [(name, value)]
  | (key, old) :: args =>
    if key = name then (key, value) :: args else (key, old) :: setArgument name value args

end HtmlTemplate
