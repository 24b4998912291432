import HtmlTemplate.Tree.Flatten

/-!
# Subtrees

A subtree is known by its address: the branches that lead down to it from the root. Two equal subtrees of one tree have
different addresses, so what is said about the subtrees of a tree, or done to some of them, is said about addresses.

## Contents

* `Branch`, `Address`, `Node.branch?`, `Node.at?` — one step down a tree, and all the way to a subtree;
* `Branch.behind` — the part of a set of addresses that lies behind a branch;
* `Node.inductionOn` — what holds of a tree if it holds of what is one step further down;
* `Node.flattenAll_eq_flatMap`, `Node.flattenArgs_eq_map` — flattening a list of trees is flattening each of them.
-/

namespace HtmlTemplate

/-- One step down a tree. -/
inductive Branch where
  /-- To a child of a body, behind as many others. -/
  | child (index : Nat)
  /-- To the tree in a deferred one. -/
  | content
  /-- To the value of an argument of a call, behind as many others. -/
  | argument (index : Nat)
deriving DecidableEq

/-- The branches on the way down from the root of a tree. -/
abbrev Address : Type := List Branch

/-- Of some addresses those behind a branch, as addresses from there on. -/
def Branch.behind (branch : Branch) (addresses : Address → Bool) : Address → Bool :=
  fun address => addresses (branch :: address)

namespace Node

/-- What is one step down from the root. -/
def branch? : Node → Branch → Option Node
  | body _ children, .child index => children[index]?
  | deferred _ inner, .content => some inner
  | call _ _ _ args, .argument index => args[index]?.map Prod.snd
  | _, _ => none

/-- The subtree at an address. -/
def at? (tree : Node) : Address → Option Node
  | [] => some tree
  | branch :: address => (tree.branch? branch).bind fun inner => inner.at? address

@[simp] theorem at?_nil (tree : Node) : tree.at? [] = some tree := rfl

theorem at?_cons (tree : Node) (branch : Branch) (address : Address) :
    tree.at? (branch :: address) = (tree.branch? branch).bind fun inner => inner.at? address := rfl

theorem at?_append (tree : Node) (address more : Address) :
    tree.at? (address ++ more) = (tree.at? address).bind fun inner => inner.at? more := by
  induction address generalizing tree with
  | nil => rfl
  | cons branch address ih =>
    rw [List.cons_append, at?_cons, at?_cons]
    cases tree.branch? branch with
    | none => rfl
    | some inner => exact ih inner

/-! ## Induction over a tree -/

/-- What holds of a tree whenever it holds of all that is one step further down holds of every tree. -/
@[elab_as_elim]
theorem inductionOn {motive : Node → Prop} (node : Node)
    (literal : ∀ location text, motive (.literal location text))
    (reference : ∀ location mode path, motive (.reference location mode path))
    (deferred : ∀ location inner, motive inner → motive (.deferred location inner))
    (call : ∀ location target name args, (∀ arg ∈ args, motive arg.2) → motive (.call location target name args))
    (body : ∀ location children, (∀ child ∈ children, motive child) → motive (.body location children)) :
    motive node := by
  refine @Node.rec motive (fun args => ∀ arg ∈ args, motive arg.2) (fun children => ∀ child ∈ children, motive child)
    (fun arg => motive arg.2) literal deferred reference call body nofun ?_ nofun ?_ (fun _ _ => id) node
  · intro arg args harg hargs
    exact List.forall_mem_cons.mpr ⟨harg, hargs⟩
  · intro child children hchild hchildren
    exact List.forall_mem_cons.mpr ⟨hchild, hchildren⟩

/-! ## Flattening lists of trees -/

theorem flattenAll_eq_flatMap (nodes : List Node) : flattenAll nodes = nodes.flatMap fun node => node.flatten.splice := by
  induction nodes with
  | nil => rfl
  | cons node nodes ih => rw [flattenAll, ih, List.flatMap_cons]

theorem flattenArgs_eq_map (args : List (String × Node)) :
    flattenArgs args = args.map fun arg => (arg.1, arg.2.flatten) := by
  induction args with
  | nil => rfl
  | cons arg args ih => rw [flattenArgs, ih, List.map_cons]

end Node

end HtmlTemplate
