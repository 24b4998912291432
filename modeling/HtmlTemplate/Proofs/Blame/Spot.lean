import HtmlTemplate.Proofs.Grammar.Closed
import HtmlTemplate.Proofs.Grammar.Exact
import HtmlTemplate.Proofs.Render.Flattened

/-!
# What can be blamed

A render fails at a reference or at a call. These are the spots of a tree, each with its place. Flattening
keeps all of them, and the tree of a definition only has spots that its tokens have: the name of a call and
each reference are blamed where they were written.

## Contents

* `Spot`, `Spot.spellings` — what is blamed, and how it can have been written;
* `Node.spots`, `Token.spots` — the spots of a tree and of a token;
* `Node.spots_flatten` — flattening keeps them;
* `Grammar.Def.spots_subset` — those of a definition are those of its tokens.
-/

namespace HtmlTemplate

/-- What an error of rendering can be blamed on. -/
inductive Spot where
  | reference (path : Path)
  | call (name : String)

/-- The texts that can have been written for it. The text of a reference may be escaped, and its path may
    stand in parentheses. -/
def Spot.spellings : Spot → List String
  | reference path =>
    ["@" ++ path.display, "@~" ++ path.display, "@(" ++ path.display ++ ")", "@~(" ++ path.display ++ ")"]
  | call name => [name]

namespace Node

/-! ## Trees -/

mutual

/-- The references and calls of a tree, arguments of calls included. -/
def spots : Node → List (Location × Spot)
  | literal _ _ => []
  | deferred _ inner => inner.spots
  | reference place _ path => [(place, .reference path)]
  | call place _ name args => (place, .call name) :: spotsArgs args
  | body _ children => spotsAll children

def spotsAll : List Node → List (Location × Spot)
  | [] => []
  | node :: nodes => node.spots ++ spotsAll nodes

def spotsArgs : List (String × Node) → List (Location × Spot)
  | [] => []
  | (_, node) :: args => node.spots ++ spotsArgs args

end

theorem mem_spotsAll {nodes : List Node} {spot : Location × Spot} :
    spot ∈ spotsAll nodes ↔ ∃ node ∈ nodes, spot ∈ node.spots := by
  induction nodes with
  | nil => exact ⟨nofun, nofun⟩
  | cons node nodes ih =>
    simp only [spotsAll, List.mem_append, ih, List.mem_cons, exists_eq_or_imp]

theorem mem_spotsArgs {args : List (String × Node)} {spot : Location × Spot} :
    spot ∈ spotsArgs args ↔ ∃ arg ∈ args, spot ∈ arg.2.spots := by
  induction args with
  | nil => exact ⟨nofun, nofun⟩
  | cons arg args ih =>
    simp only [spotsArgs, List.mem_append, ih, List.mem_cons, exists_eq_or_imp]

theorem spotsAll_append (nodes more : List Node) : spotsAll (nodes ++ more) = spotsAll nodes ++ spotsAll more := by
  induction nodes with
  | nil => rfl
  | cons node nodes ih => rw [List.cons_append, spotsAll, spotsAll, ih, List.append_assoc]

theorem spotsAll_splice (node : Node) : spotsAll node.splice = node.spots := by
  cases node with
  | body place children => rfl
  | _ => exact List.append_nil _

theorem spotsAll_mergeLiterals (nodes : List Node) : spotsAll (mergeLiterals nodes) = spotsAll nodes := by
  fun_induction mergeLiterals nodes with
  | case1 => rfl
  | case2 place text nodes place' more rest hmerged ih =>
    rw [hmerged] at ih
    exact ih
  | case3 place text nodes hmerged ih => exact ih
  | case4 node nodes hne ih => rw [spotsAll, spotsAll, ih]

mutual

/-- **Flattening keeps all spots.** -/
theorem spots_flatten : ∀ node : Node, node.flatten.spots = node.spots
  | literal _ _ => rfl
  | deferred _ inner => by rw [flatten, spots, spots, spots_flatten inner]
  | reference _ _ _ => rfl
  | call _ _ _ args => by rw [flatten, spots, spots, spotsArgs_flattenArgs args]
  | body _ children => by rw [flatten, spots, spots, spotsAll_mergeLiterals, spotsAll_flattenAll children]

theorem spotsAll_flattenAll : ∀ nodes : List Node, spotsAll (flattenAll nodes) = spotsAll nodes
  | [] => rfl
  | node :: nodes => by
    rw [flattenAll, spotsAll_append, spotsAll_splice, spots_flatten node, spotsAll_flattenAll nodes, spotsAll]

theorem spotsArgs_flattenArgs : ∀ args : List (String × Node), spotsArgs (flattenArgs args) = spotsArgs args
  | [] => rfl
  | (_, node) :: args => by
    rw [flattenArgs, spotsArgs, spotsArgs, spots_flatten node, spotsArgs_flattenArgs args]

end

end Node

/-! ## Tokens -/

/-- The spots that a token can become, those inside a literal included. -/
def Token.spots (token : Token) : List (Location × Spot) :=
  match token.kind with
  | .ident name => [(token.location, .call name)]
  | .reference ref => [(token.location, .reference ref.path)]
  | .literal segments => segments.filterMap fun
    | (.reference ref, range) => some (⟨token.file, range⟩, .reference ref.path)
    | (.text _, _) => none
  | _ => []

theorem Token.Refers.mem_spots {token : Token} {location : Location} {ref : Reference} (h : token.Refers location ref) :
    (location, .reference ref.path) ∈ token.spots := by
  cases h with
  | reference => exact List.mem_cons_self
  | segment _ hsegment => exact List.mem_filterMap.mpr ⟨_, hsegment, rfl⟩

/-! ## Definitions -/

namespace Grammar

variable (scope : CallScope)

/-- The spots of a tree are those of the tokens that it is put together from. -/
theorem closed_spots (tokens : List Token) :
    Closed scope (· ∈ tokens) fun _ node => node.spots ⊆ tokens.flatMap Token.spots where
  literal _ _ _ := nofun
  emitted htoken _ _ hrefers _ _ :=
    List.cons_subset.mpr ⟨List.mem_flatMap.mpr ⟨_, htoken, hrefers.mem_spots⟩, List.nil_subset _⟩
  passed htoken _ _ hrefers :=
    List.cons_subset.mpr ⟨List.mem_flatMap.mpr ⟨_, htoken, hrefers.mem_spots⟩, List.nil_subset _⟩
  deferred _ _ _ hinner := hinner
  call htoken _ _ _ hargs := by
    intro spot hspot
    rcases List.mem_cons.mp hspot with rfl | hspot
    · exact List.mem_flatMap.mpr ⟨_, htoken, List.mem_cons_self⟩
    · obtain ⟨arg, harg, hspot⟩ := Node.mem_spotsArgs.mp hspot
      exact hargs arg harg hspot
  body _ _ _ hchildren := by
    intro spot hspot
    obtain ⟨child, hchild, hspot⟩ := Node.mem_spotsAll.mp hspot
    exact hchildren child hchild hspot

/-- **The spots of a definition are those of its tokens.** -/
theorem Def.spots_subset (d : Def) : (d.definition scope).body.spots ⊆ d.tokens.flatMap Token.spots :=
  (closed_spots scope d.tokens).definition fun _ htoken => htoken

end Grammar

end HtmlTemplate
