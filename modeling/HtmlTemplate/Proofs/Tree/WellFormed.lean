import HtmlTemplate.Proofs.Blame.Spot
import HtmlTemplate.Proofs.Token.Paths
import HtmlTemplate.Proofs.Tree.NormalForm

/-!
# Well-formed trees

What all compiled trees have in common is said about the subtrees of a tree (`Node.WellFormed`): about paths, names of
arguments, targets and places, and about which nodes are values of arguments. For proofs there is a judgment that
follows the tree (`Node.Built`). It tells the trees that can be rendered in place from those that can only be the value
of an argument, so each constructor says where its subtrees stand. Flattening moves children of bodies to other bodies,
where they are in place as before (`Node.Built.flatten`).

## Contents

* `Node.isArgument`, `Node.WellFormed` — well-formed trees;
* `Node.Built` — the judgment, with what follows for subtrees (`Node.Built.at?`, `Node.Built.wellFormed`);
* `Node.Built.flatten` — flattening keeps it.
-/

namespace HtmlTemplate

namespace Node

/-! ## Well-formed trees -/

/-- A passed reference or a deferred tree, which is what the value of an argument can be. -/
def isArgument : Node → Bool
  | reference _ .passed _ | deferred _ _ => true
  | _ => false

theorem isArgument_reference {mode : RefMode} (hmode : mode ≠ .passed) (location : Location) (path : Path) :
    (reference location mode path).isArgument = false := by
  cases mode with
  | passed => exact absurd rfl hmode
  | raw | escaped => rfl

/-- The tree is one that can have been compiled from the source number `file`, with calls of these internal templates. -/
structure WellFormed (isInternal : String → Bool) (file : Nat) (tree : Node) : Prop where
  /-- Each path has a segment, and its segments are identifiers and runs of digits. -/
  paths : ∀ address location mode path, tree.at? address = some (reference location mode path) → path.IsProper
  /-- No call has two arguments of one name. -/
  names : ∀ address location target name args, tree.at? address = some (call location target name args) →
    (args.map Prod.fst).Nodup
  /-- Passed references and deferred trees are values of arguments, and nothing else is. -/
  arguments : ∀ address inner, tree.at? address = some inner →
    (inner.isArgument = true ↔ ∃ above index, address = above ++ [.argument index])
  /-- Calls are internal if their name is that of an internal template, and external if not. -/
  targets : ∀ address location target name args, tree.at? address = some (call location target name args) →
    (target = .internal ↔ isInternal name = true)
  /-- Everything is located in the source. -/
  files : ∀ address inner, tree.at? address = some inner → inner.location.file = file

/-! ## The judgment -/

/-- The tree is well formed, and stands as the value of an argument or in place. -/
inductive Built (isInternal : String → Bool) (file : Nat) : (asArgument : Bool) → Node → Prop where
  | literal {location : Location} (hfile : location.file = file) (text : String) :
    Built isInternal file false (literal location text)
  | emitted {location : Location} {mode : RefMode} {path : Path} (hfile : location.file = file)
    (hmode : mode ≠ .passed) (hpath : path.IsProper) : Built isInternal file false (reference location mode path)
  | passed {location : Location} {path : Path} (hfile : location.file = file) (hpath : path.IsProper) :
    Built isInternal file true (reference location .passed path)
  | deferred {location : Location} {inner : Node} (hfile : location.file = file)
    (hinner : Built isInternal file false inner) : Built isInternal file true (deferred location inner)
  | call {location : Location} {target : Binding} {name : String} {args : List (String × Node)}
    (hfile : location.file = file) (htarget : target = .internal ↔ isInternal name = true)
    (hnames : (args.map Prod.fst).Nodup) (hargs : ∀ arg ∈ args, Built isInternal file true arg.2) :
    Built isInternal file false (call location target name args)
  | body {location : Location} {children : List Node} (hfile : location.file = file)
    (hchildren : ∀ child ∈ children, Built isInternal file false child) :
    Built isInternal file false (body location children)

end Node

/-- Only arguments of calls stand as arguments. -/
def Branch.isArgument : Branch → Bool
  | argument _ => true
  | child _ | content => false

namespace Node.Built

variable {isInternal : String → Bool} {file : Nat} {asArgument : Bool} {tree inner : Node}

theorem isArgument_eq (h : Built isInternal file asArgument tree) : tree.isArgument = asArgument := by
  cases h with
  | emitted _ hmode _ => exact isArgument_reference hmode _ _
  | _ => rfl

theorem branch? (h : Built isInternal file asArgument tree) {branch : Branch} (hinner : tree.branch? branch = some inner) :
    Built isInternal file branch.isArgument inner := by
  cases h with
  | literal | emitted | passed => cases hinner
  | deferred hfile hdeferred =>
    cases branch with
    | content =>
      cases hinner
      exact hdeferred
    | child index | argument index => cases hinner
  | call hfile htarget hnames hargs =>
    cases branch with
    | argument index =>
      obtain ⟨arg, harg, rfl⟩ := Option.map_eq_some_iff.mp hinner
      exact hargs arg (List.mem_of_getElem? harg)
    | child index | content => cases hinner
  | body hfile hchildren =>
    cases branch with
    | child index => exact hchildren inner (List.mem_of_getElem? hinner)
    | argument index | content => cases hinner

theorem at? (h : Built isInternal file asArgument tree) {address : Address} (hinner : tree.at? address = some inner) :
    ∃ asArgument, Built isInternal file asArgument inner := by
  induction address generalizing asArgument tree with
  | nil =>
    cases hinner
    exact ⟨asArgument, h⟩
  | cons branch address ih =>
    obtain ⟨next, hnext, hinner⟩ := Option.bind_eq_some_iff.mp hinner
    exact ih (h.branch? hnext) hinner

/-- Behind the last branch a tree stands as this branch says. -/
theorem at?_concat (h : Built isInternal file asArgument tree) {above : Address} {branch : Branch}
    (hinner : tree.at? (above ++ [branch]) = some inner) : Built isInternal file branch.isArgument inner := by
  rw [at?_append] at hinner
  obtain ⟨outer, houter, hinner⟩ := Option.bind_eq_some_iff.mp hinner
  obtain ⟨last, hlast, hinner⟩ := Option.bind_eq_some_iff.mp hinner
  cases hinner
  obtain ⟨_, hbuilt⟩ := h.at? houter
  exact hbuilt.branch? hlast

theorem wellFormed (h : Built isInternal file false tree) : tree.WellFormed isInternal file where
  paths address location mode path hinner := by
    obtain ⟨_, hbuilt⟩ := h.at? hinner
    cases hbuilt with
    | emitted _ _ hpath | passed _ hpath => exact hpath
  names address location target name args hinner := by
    obtain ⟨_, hbuilt⟩ := h.at? hinner
    cases hbuilt with
    | call _ _ hnames _ => exact hnames
  arguments address inner hinner := by
    -- The last branch tells where a subtree stands, and the whole tree, which has none, stands in place.
    obtain rfl | ⟨above, branch, rfl⟩ := List.eq_nil_or_concat address
    · cases hinner
      rw [h.isArgument_eq]
      refine ⟨nofun, fun ⟨above, index, hnil⟩ => ?_⟩
      cases List.append_ne_nil_of_right_ne_nil above (List.cons_ne_nil _ _) hnil.symm
    · rw [List.concat_eq_append] at hinner ⊢
      rw [(h.at?_concat hinner).isArgument_eq]
      cases branch with
      | argument index => exact ⟨fun _ => ⟨above, index, rfl⟩, fun _ => rfl⟩
      | child index | content =>
        refine ⟨nofun, fun ⟨other, index', hlast⟩ => ?_⟩
        cases (List.append_inj' hlast rfl).2
  targets address location target name args hinner := by
    obtain ⟨_, hbuilt⟩ := h.at? hinner
    cases hbuilt with
    | call _ htarget _ _ => exact htarget
  files address inner hinner := by
    obtain ⟨_, hbuilt⟩ := h.at? hinner
    cases hbuilt <;> assumption

/-! ## Flattening -/

/-- What stands in place stands there as a child of another body as well. -/
theorem splice (h : Built isInternal file false tree) : ∀ inner ∈ tree.splice, Built isInternal file false inner := by
  cases h with
  | body hfile hchildren => exact hchildren
  | literal hfile text => exact List.forall_mem_singleton.mpr (.literal hfile text)
  | emitted hfile hmode hpath => exact List.forall_mem_singleton.mpr (.emitted hfile hmode hpath)
  | call hfile htarget hnames hargs => exact List.forall_mem_singleton.mpr (.call hfile htarget hnames hargs)

/-- **Flattening keeps a tree well formed.** -/
theorem flatten (h : Built isInternal file asArgument tree) : Built isInternal file asArgument tree.flatten := by
  induction h with
  | literal hfile text =>
    rw [Node.flatten]
    exact .literal hfile text
  | emitted hfile hmode hpath =>
    rw [Node.flatten]
    exact .emitted hfile hmode hpath
  | passed hfile hpath =>
    rw [Node.flatten]
    exact .passed hfile hpath
  | deferred hfile _ ih =>
    rw [Node.flatten]
    exact .deferred hfile ih
  | @call location target name args hfile htarget hnames _ ih =>
    rw [Node.flatten, flattenArgs_eq_map]
    refine .call hfile htarget ?_ ?_
    · rw [List.map_map]
      exact hnames
    · intro flattened hflattened
      obtain ⟨arg, harg, rfl⟩ := List.mem_map.mp hflattened
      exact ih arg harg
  | @body location children hfile _ ih =>
    rw [Node.flatten]
    refine .body hfile (forall_mergeLiterals ?_ ?_)
    · intro place text text' hliteral
      cases hliteral with
      | literal hplace _ => exact .literal hplace text'
    · intro node hnode
      rw [flattenAll_eq_flatMap] at hnode
      obtain ⟨child, hchild, hnode⟩ := List.mem_flatMap.mp hnode
      exact (ih child hchild).splice node hnode

end Node.Built

end HtmlTemplate
