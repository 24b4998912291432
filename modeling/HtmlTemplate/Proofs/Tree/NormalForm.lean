import Mathlib.Data.List.Chain
import HtmlTemplate.Proofs.Render.Flattened
import HtmlTemplate.Proofs.Tree.Subtree

/-!
# The normal form of a tree

A tree is flat if none of its bodies, wherever it stands, has a body or two literals side by side among its children.
Flattening makes every tree flat, and leaves those alone that are flat already (`Node.flatten_normalForm`). This is a
matter of lists. Moving children up can bring literals of different bodies together, but they are joined after that, and
joining leaves no two literals side by side whatever the list was (`isChain_mergeLiterals`).

What a tree is flattened to depends on its subtrees only through what these are flattened to. So it does not matter
whether some of them had been flattened before, one inside the other or not (`Node.flatten_inParts`).

## Contents

* `FlatChildren`, `Node.IsFlat` — flat trees, with an equation for each constructor;
* `forall_mergeLiterals`, `isChain_mergeLiterals`, `mergeLiterals_eq_self` — what joining literals does to a list;
* `Node.isFlat_flatten`, `Node.IsFlat.flatten_eq`, `Node.flatten_normalForm` — flattening gives the normal form;
* `Node.flattenAt`, `Node.flatten_inParts` — flattening some subtrees first.
-/

namespace HtmlTemplate

namespace Node

/-! ## Flat trees -/

def isBody : Node → Bool
  | body _ _ => true
  | _ => false

def isLiteral : Node → Bool
  | literal _ _ => true
  | _ => false

end Node

/-- The nodes are no bodies, and no two of them that stand side by side are literals. -/
structure FlatChildren (nodes : List Node) : Prop where
  noBody : ∀ node ∈ nodes, node.isBody = false
  noPair : nodes.IsChain fun node next => (node.isLiteral && next.isLiteral) = false

namespace Node

/-- Every body in the tree, in deferred trees and in arguments of calls as well, has flat children. -/
def IsFlat (tree : Node) : Prop :=
  ∀ address location children, tree.at? address = some (body location children) → FlatChildren children

/-- A tree is flat if its root is and if all trees one step further down are. -/
theorem isFlat_iff {tree : Node} :
    tree.IsFlat ↔ (∀ location children, tree = body location children → FlatChildren children) ∧
      ∀ branch inner, tree.branch? branch = some inner → inner.IsFlat := by
  constructor
  · intro h
    refine ⟨fun location children hroot => h [] location children (congrArg some hroot), ?_⟩
    intro branch inner hinner address location children hbody
    exact h (branch :: address) location children (by rw [at?_cons, hinner, Option.bind_some, hbody])
  · rintro ⟨hroot, hbelow⟩ address location children hbody
    cases address with
    | nil => exact hroot location children (Option.some.inj hbody)
    | cons branch address =>
      obtain ⟨inner, hinner, hbody⟩ := Option.bind_eq_some_iff.mp hbody
      exact hbelow branch inner hinner address location children hbody

theorem isFlat_literal (location : Location) (text : String) : (literal location text).IsFlat :=
  isFlat_iff.mpr ⟨nofun, nofun⟩

theorem isFlat_reference (location : Location) (mode : RefMode) (path : Path) : (reference location mode path).IsFlat :=
  isFlat_iff.mpr ⟨nofun, nofun⟩

theorem isFlat_deferred {location : Location} {inner : Node} : (deferred location inner).IsFlat ↔ inner.IsFlat := by
  rw [isFlat_iff]
  constructor
  · exact fun h => h.2 .content inner rfl
  · intro h
    refine ⟨nofun, fun branch other hother => ?_⟩
    cases branch <;> cases hother
    exact h

theorem isFlat_call {location : Location} {target : Binding} {name : String} {args : List (String × Node)} :
    (call location target name args).IsFlat ↔ ∀ arg ∈ args, arg.2.IsFlat := by
  rw [isFlat_iff]
  constructor
  · intro h arg harg
    obtain ⟨index, hindex⟩ := List.mem_iff_getElem?.mp harg
    exact h.2 (.argument index) arg.2 (by rw [branch?, hindex, Option.map_some])
  · intro h
    refine ⟨nofun, fun branch inner hinner => ?_⟩
    cases branch with
    | argument index =>
      obtain ⟨arg, harg, rfl⟩ := Option.map_eq_some_iff.mp hinner
      exact h arg (List.mem_of_getElem? harg)
    | child index | content => cases hinner

theorem isFlat_body {location : Location} {children : List Node} :
    (body location children).IsFlat ↔ FlatChildren children ∧ ∀ child ∈ children, child.IsFlat := by
  rw [isFlat_iff]
  constructor
  · rintro ⟨hroot, hbelow⟩
    refine ⟨hroot location children rfl, fun child hchild => ?_⟩
    obtain ⟨index, hindex⟩ := List.mem_iff_getElem?.mp hchild
    exact hbelow (.child index) child hindex
  · rintro ⟨hchildren, hflat⟩
    constructor
    · rintro location' children' hroot
      cases hroot
      exact hchildren
    · intro branch inner hinner
      cases branch with
      | child index => exact hflat inner (List.mem_of_getElem? hinner)
      | argument index | content => cases hinner

end Node

/-! ## Joining literals -/

/-- What holds of some nodes holds of them with their literals joined, if it holds of a literal whatever its text. -/
theorem forall_mergeLiterals {P : Node → Prop}
    (hliteral : ∀ location text text', P (.literal location text) → P (.literal location text')) {nodes : List Node}
    (h : ∀ node ∈ nodes, P node) : ∀ node ∈ mergeLiterals nodes, P node := by
  fun_induction mergeLiterals nodes with
  | case1 => exact h
  | case2 location text nodes _ more rest hmerged ih =>
    obtain ⟨hfirst, hnodes⟩ := List.forall_mem_cons.mp h
    have hrest := ih hnodes
    rw [hmerged] at hrest
    exact List.forall_mem_cons.mpr ⟨hliteral _ _ _ hfirst, (List.forall_mem_cons.mp hrest).2⟩
  | case3 location text nodes _ ih =>
    obtain ⟨hfirst, hnodes⟩ := List.forall_mem_cons.mp h
    exact List.forall_mem_cons.mpr ⟨hfirst, ih hnodes⟩
  | case4 node nodes _ ih =>
    obtain ⟨hfirst, hnodes⟩ := List.forall_mem_cons.mp h
    exact List.forall_mem_cons.mpr ⟨hfirst, ih hnodes⟩

/-- Once the literals of a list are joined, no two of them stand side by side. -/
theorem isChain_mergeLiterals (nodes : List Node) :
    (mergeLiterals nodes).IsChain fun node next => (node.isLiteral && next.isLiteral) = false := by
  fun_induction mergeLiterals nodes with
  | case1 => exact .nil
  | case2 location text nodes place more rest hmerged ih =>
    rw [hmerged] at ih
    cases rest with
    | nil => exact .singleton _
    | cons next rest =>
      obtain ⟨hnext, hrest⟩ := List.isChain_cons_cons.mp ih
      exact List.isChain_cons_cons.mpr ⟨hnext, hrest⟩
  | case3 location text nodes hnone ih =>
    -- What comes next is no literal, or it would have been joined.
    cases hmerged : mergeLiterals nodes with
    | nil => exact .singleton _
    | cons next rest =>
      rw [hmerged] at ih
      refine List.isChain_cons_cons.mpr ⟨?_, ih⟩
      cases next with
      | literal place more => exact absurd hmerged (hnone place more rest)
      | _ => rfl
  | case4 node nodes hnode ih =>
    have hfirst : node.isLiteral = false := by
      cases node with
      | literal location text => exact absurd rfl (hnode location text)
      | _ => rfl
    cases hmerged : mergeLiterals nodes with
    | nil => exact .singleton _
    | cons next rest =>
      rw [hmerged] at ih
      refine List.isChain_cons_cons.mpr ⟨?_, ih⟩
      rw [hfirst, Bool.false_and]

/-- There is nothing to join where no two literals stand side by side. -/
theorem mergeLiterals_eq_self {nodes : List Node}
    (h : nodes.IsChain fun node next => (node.isLiteral && next.isLiteral) = false) : mergeLiterals nodes = nodes := by
  fun_induction mergeLiterals nodes with
  | case1 => rfl
  | case2 location text nodes place more rest hmerged ih =>
    rw [ih h.tail] at hmerged
    cases hmerged
    cases (List.isChain_cons_cons.mp h).1
  | case3 location text nodes _ ih => rw [ih h.tail]
  | case4 node nodes _ ih => rw [ih h.tail]

namespace Node

/-! ## Flattening -/

/-- What stands for a flat tree among the children of a body is no body, and flat. -/
theorem IsFlat.splice {node : Node} (h : node.IsFlat) : ∀ inner ∈ node.splice, inner.isBody = false ∧ inner.IsFlat := by
  cases node with
  | body location children =>
    obtain ⟨hchildren, hflat⟩ := isFlat_body.mp h
    exact fun inner hinner => ⟨hchildren.noBody inner hinner, hflat inner hinner⟩
  | _ =>
    intro inner hinner
    cases List.mem_singleton.mp hinner
    exact ⟨rfl, h⟩

/-- **Flattening makes a tree flat.** -/
theorem isFlat_flatten (node : Node) : node.flatten.IsFlat := by
  induction node using inductionOn with
  | literal location text =>
    rw [flatten]
    exact isFlat_literal location text
  | reference location mode path =>
    rw [flatten]
    exact isFlat_reference location mode path
  | deferred location inner ih =>
    rw [flatten]
    exact isFlat_deferred.mpr ih
  | call location target name args ih =>
    rw [flatten, isFlat_call, flattenArgs_eq_map]
    intro flattened hflattened
    obtain ⟨arg, harg, rfl⟩ := List.mem_map.mp hflattened
    exact ih arg harg
  | body location children ih =>
    have hall : ∀ node ∈ flattenAll children, node.isBody = false ∧ node.IsFlat := by
      intro node hnode
      rw [flattenAll_eq_flatMap] at hnode
      obtain ⟨child, hchild, hnode⟩ := List.mem_flatMap.mp hnode
      exact (ih child hchild).splice node hnode
    have hmerged := forall_mergeLiterals (fun location text text' _ => ⟨rfl, isFlat_literal location text'⟩) hall
    rw [flatten, isFlat_body]
    exact ⟨⟨fun node hnode => (hmerged node hnode).1, isChain_mergeLiterals _⟩, fun node hnode => (hmerged node hnode).2⟩

theorem splice_of_not_body {node : Node} (h : node.isBody = false) : node.splice = [node] := by
  cases node with
  | body location children => cases h
  | _ => rfl

/-- **Nothing happens to a tree that is flat already.** -/
theorem IsFlat.flatten_eq {node : Node} (h : node.IsFlat) : node.flatten = node := by
  induction node using inductionOn with
  | literal location text => rw [flatten]
  | reference location mode path => rw [flatten]
  | deferred location inner ih => rw [flatten, ih (isFlat_deferred.mp h)]
  | call location target name args ih =>
    have hargs : args.map (fun arg => (arg.1, arg.2.flatten)) = args := by
      conv_rhs => rw [← List.map_id args]
      apply List.map_congr_left
      intro arg harg
      rw [ih arg harg (isFlat_call.mp h arg harg)]
      rfl
    rw [flatten, flattenArgs_eq_map, hargs]
  | body location children ih =>
    obtain ⟨hchildren, hflat⟩ := isFlat_body.mp h
    have hall : flattenAll children = children := by
      rw [flattenAll_eq_flatMap]
      calc children.flatMap (fun child => child.flatten.splice)
        _ = children.flatMap (fun child => [child]) := by
          apply List.flatMap_congr
          intro child hchild
          rw [ih child hchild (hflat child hchild), splice_of_not_body (hchildren.noBody child hchild)]
        _ = children := List.flatMap_singleton' children
    rw [flatten, hall, mergeLiterals_eq_self hchildren.noPair]

@[simp] theorem flatten_flatten (node : Node) : node.flatten.flatten = node.flatten := node.isFlat_flatten.flatten_eq

/-- **Flattening gives the normal form.** What a tree is flattened to is flat at every depth; a tree is left as it is,
    all places included, if and only if it is flat; and so flattening twice is flattening once. -/
theorem flatten_normalForm (tree : Node) :
    tree.flatten.IsFlat ∧ (tree.flatten = tree ↔ tree.IsFlat) ∧ tree.flatten.flatten = tree.flatten := by
  refine ⟨tree.isFlat_flatten, ⟨?_, IsFlat.flatten_eq⟩, tree.flatten_flatten⟩
  intro h
  rw [← h]
  exact tree.isFlat_flatten

/-! ## Flattening some subtrees first -/

/-- Flattens a tree, or does not. -/
def flattenIf (flat : Bool) (tree : Node) : Node := if flat then tree.flatten else tree

mutual

/-- The tree in which each subtree at a chosen address is replaced by its flattened form, those further down first. -/
def flattenAt (chosen : Address → Bool) : Node → Node
  | literal location text => flattenIf (chosen []) (literal location text)
  | deferred location inner => flattenIf (chosen []) (deferred location (inner.flattenAt (Branch.content.behind chosen)))
  | reference location mode path => flattenIf (chosen []) (reference location mode path)
  | call location target name args =>
    flattenIf (chosen []) (call location target name (flattenArgsAt chosen 0 args))
  | body location children => flattenIf (chosen []) (body location (flattenAllAt chosen 0 children))

/-- The children of a body, of which there are `index` more in front. -/
def flattenAllAt (chosen : Address → Bool) : (index : Nat) → List Node → List Node
  | _, [] => []
  | index, node :: nodes =>
    node.flattenAt ((Branch.child index).behind chosen) :: flattenAllAt chosen (index + 1) nodes

/-- The arguments of a call, of which there are `index` more in front. -/
def flattenArgsAt (chosen : Address → Bool) : (index : Nat) → List (String × Node) → List (String × Node)
  | _, [] => []
  | index, (name, node) :: args =>
    (name, node.flattenAt ((Branch.argument index).behind chosen)) :: flattenArgsAt chosen (index + 1) args

end

theorem flatten_flattenIf (flat : Bool) (tree : Node) : (flattenIf flat tree).flatten = tree.flatten := by
  cases flat with
  | false => rfl
  | true => exact tree.flatten_flatten

mutual

theorem flatten_flattenAt : ∀ (node : Node) (chosen : Address → Bool), (node.flattenAt chosen).flatten = node.flatten
  | literal _ _, _ => by rw [flattenAt, flatten_flattenIf]
  | deferred _ inner, chosen => by rw [flattenAt, flatten_flattenIf, flatten, flatten, flatten_flattenAt inner]
  | reference _ _ _, _ => by rw [flattenAt, flatten_flattenIf]
  | call _ _ _ args, chosen => by rw [flattenAt, flatten_flattenIf, flatten, flatten, flattenArgs_flattenArgsAt args]
  | body _ children, chosen => by rw [flattenAt, flatten_flattenIf, flatten, flatten, flattenAll_flattenAllAt children]

theorem flattenAll_flattenAllAt : ∀ (nodes : List Node) (chosen : Address → Bool) (index : Nat),
    flattenAll (flattenAllAt chosen index nodes) = flattenAll nodes
  | [], _, _ => by rw [flattenAllAt]
  | node :: nodes, chosen, index => by
    rw [flattenAllAt, flattenAll, flattenAll, flatten_flattenAt node, flattenAll_flattenAllAt nodes]

theorem flattenArgs_flattenArgsAt : ∀ (args : List (String × Node)) (chosen : Address → Bool) (index : Nat),
    flattenArgs (flattenArgsAt chosen index args) = flattenArgs args
  | [], _, _ => by rw [flattenArgsAt]
  | (name, node) :: args, chosen, index => by
    rw [flattenArgsAt, flattenArgs, flattenArgs, flatten_flattenAt node, flattenArgs_flattenArgsAt args]

end

/-- A chosen tree is flattened as a whole, and what is chosen inside it does not matter. -/
theorem flattenAt_of_chosen {chosen : Address → Bool} (h : chosen [] = true) (node : Node) :
    node.flattenAt chosen = node.flatten := by
  have hflat : ∀ tree : Node, flattenIf (chosen []) tree = tree.flatten := by
    intro tree
    rw [h]
    rfl
  rw [← flatten_flattenAt node chosen]
  cases node with
  | literal location text => rw [flattenAt, hflat, flatten_flatten]
  | deferred location inner => rw [flattenAt, hflat, flatten_flatten]
  | reference location mode path => rw [flattenAt, hflat, flatten_flatten]
  | call location target name args => rw [flattenAt, hflat, flatten_flatten]
  | body location children => rw [flattenAt, hflat, flatten_flatten]

theorem getElem?_flattenAllAt (chosen : Address → Bool) (nodes : List Node) (start index : Nat) :
    (flattenAllAt chosen start nodes)[index]? =
      nodes[index]?.map fun node => node.flattenAt ((Branch.child (start + index)).behind chosen) := by
  induction nodes generalizing start index with
  | nil => rfl
  | cons node nodes ih =>
    rw [flattenAllAt]
    cases index with
    | zero => rfl
    | succ index => rw [List.getElem?_cons_succ, List.getElem?_cons_succ, ih, Nat.add_right_comm, Nat.add_assoc]

theorem getElem?_flattenArgsAt (chosen : Address → Bool) (args : List (String × Node)) (start index : Nat) :
    (flattenArgsAt chosen start args)[index]? =
      args[index]?.map fun arg => (arg.1, arg.2.flattenAt ((Branch.argument (start + index)).behind chosen)) := by
  induction args generalizing start index with
  | nil => rfl
  | cons arg args ih =>
    rw [flattenArgsAt]
    cases index with
    | zero => rfl
    | succ index => rw [List.getElem?_cons_succ, List.getElem?_cons_succ, ih, Nat.add_right_comm, Nat.add_assoc]

/-- Where a tree is not chosen itself, it is as it was but for what is one step further down. -/
theorem branch?_flattenAt {chosen : Address → Bool} (h : chosen [] = false) (node : Node) (branch : Branch) :
    (node.flattenAt chosen).branch? branch =
      (node.branch? branch).map fun inner => inner.flattenAt (branch.behind chosen) := by
  have hkept : ∀ tree : Node, flattenIf (chosen []) tree = tree := by
    intro tree
    rw [h]
    rfl
  cases node with
  | literal location text => rw [flattenAt, hkept]; cases branch <;> rfl
  | reference location mode path => rw [flattenAt, hkept]; cases branch <;> rfl
  | deferred location inner => rw [flattenAt, hkept]; cases branch <;> rfl
  | call location target name args =>
    rw [flattenAt, hkept]
    cases branch with
    | argument index =>
      rw [branch?, branch?, getElem?_flattenArgsAt, Nat.zero_add, Option.map_map, Option.map_map]
      rfl
    | child index | content => rfl
  | body location children =>
    rw [flattenAt, hkept]
    cases branch with
    | child index => rw [branch?, branch?, getElem?_flattenAllAt, Nat.zero_add]
    | argument index | content => rfl

/-- What stands at a chosen address is flattened, unless it is in a tree that is flattened as a whole. -/
theorem at?_flattenAt {chosen : Address → Bool} {node inner : Node} {address : Address}
    (hinner : node.at? address = some inner) (hchosen : chosen address = true)
    (habove : ∀ above, above <+: address → above ≠ address → chosen above = false) :
    (node.flattenAt chosen).at? address = some inner.flatten := by
  induction address generalizing node chosen with
  | nil =>
    cases hinner
    rw [at?_nil, flattenAt_of_chosen hchosen]
  | cons branch address ih =>
    obtain ⟨next, hnext, hinner⟩ := Option.bind_eq_some_iff.mp hinner
    have hroot : chosen [] = false := habove [] List.nil_prefix (List.cons_ne_nil _ _).symm
    rw [at?_cons, branch?_flattenAt hroot, hnext, Option.map_some, Option.bind_some]
    apply ih hinner hchosen
    intro above hprefix hne
    exact habove (branch :: above) (List.cons_prefix_cons.mpr ⟨rfl, hprefix⟩) fun heq => hne (List.cons.inj heq).2

/-- **Flattening in parts is flattening the whole.** Choose any subtrees of a tree, which may stand one in another, and
    replace each of them by its flattened form. Flattening gives the same tree then, with all places the same. What
    stands at a chosen address that no other chosen one leads to is indeed the flattened form of what stood there. -/
theorem flatten_inParts (tree : Node) (chosen : Address → Bool) :
    (tree.flattenAt chosen).flatten = tree.flatten ∧
      ∀ address inner, tree.at? address = some inner → chosen address = true →
        (∀ above, above <+: address → above ≠ address → chosen above = false) →
          (tree.flattenAt chosen).at? address = some inner.flatten :=
  ⟨tree.flatten_flattenAt chosen, fun _ _ => at?_flattenAt⟩

/-- A body in a body is flattened, and so is the argument in it, behind which literals of three bodies come together. -/
theorem flatten_inParts_nested :
    let text (line : Nat) (content : String) : Node := .literal ⟨0, ⟨⟨line, 1⟩, ⟨line, 2⟩⟩⟩ content
    let inner := Node.body default [.call default .external "f" [("x", .deferred default (.body default [text 1 "a"]))],
      .body default [text 2 "b", text 3 "c"], text 4 "d"]
    let tree := Node.body default [inner, .body default [], .body default [text 5 "e"]]
    let chosen (address : Address) : Bool := address ∈ [[.child 0], [.child 0, .child 0, .argument 0, .content]]
    (tree.flattenAt chosen).at? [.child 0] = some inner.flatten ∧
      (tree.flattenAt chosen).flatten = .body default
        [.call default .external "f" [("x", .deferred default (.body default [text 1 "a"]))], text 2 "bcde"] := by
  intro text inner tree chosen
  obtain ⟨hwhole, hparts⟩ := flatten_inParts tree chosen
  have habove : ∀ above, above <+: [Branch.child 0] → above ≠ [Branch.child 0] → chosen above = false := by
    intro above hprefix hne
    cases above with
    | nil => decide
    | cons branch more =>
      obtain ⟨rfl, hmore⟩ := List.cons_prefix_cons.mp hprefix
      rw [List.prefix_nil.mp hmore] at hne
      exact absurd rfl hne
  exact ⟨hparts [.child 0] inner rfl (by decide) habove, hwhole.trans (by decide +kernel)⟩

end Node

end HtmlTemplate
