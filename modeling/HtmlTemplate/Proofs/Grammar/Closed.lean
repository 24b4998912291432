import HtmlTemplate.Proofs.Grammar.Blocks
import HtmlTemplate.Proofs.Tree.Tag

/-!
# From tokens to trees

What holds of the trees of some phrase often follows from what holds of its tokens, and each time it goes the same way:
from the parts of the phrase to the nodes that are put together from them, arguments and blocks in any depth. So this is
done once, for whatever is kept when a node is put together (`Grammar.Closed`).

## Contents

* `nodup_lastValues`, `mem_of_mem_lastValues` — the arguments that a call keeps;
* `Token.Refers` — the references in a token;
* `Grammar.Closed` — what is kept when a node is put together;
* `Grammar.Closed.nodes`, `blockNode`, `values`, `definition` — the trees of phrases.
-/

namespace HtmlTemplate

/-! ## Arguments of a call -/

/-- Each name of an argument is kept once. -/
theorem nodup_lastValues {α : Type} (args : List (String × α)) : ((lastValues args).map Prod.fst).Nodup := by
  unfold lastValues
  rw [List.map_filterMap]
  refine (nodup_eraseDups _).filterMap fun name name' found hfound hfound' => ?_
  have hname : ∀ {name : String} {value : Option α}, found ∈ (value.map (name, ·)).map Prod.fst → found = name := by
    intro name value h
    obtain ⟨_, harg, rfl⟩ := Option.map_eq_some_iff.mp h
    obtain ⟨_, -, rfl⟩ := Option.map_eq_some_iff.mp harg
    rfl
  rw [← hname hfound, ← hname hfound']

/-- They are some of those that are given. -/
theorem mem_of_mem_lastValues {α : Type} {args : List (String × α)} {arg : String × α} (h : arg ∈ lastValues args) :
    arg ∈ args := by
  unfold lastValues at h
  obtain ⟨name, -, harg⟩ := List.mem_filterMap.mp h
  obtain ⟨value, hvalue, rfl⟩ := Option.map_eq_some_iff.mp harg
  obtain ⟨before, after, hargs, -⟩ := List.lookup_eq_some_iff.mp hvalue
  rw [← List.mem_reverse, hargs]
  exact List.mem_append_right _ List.mem_cons_self

/-! ## References -/

/-- A reference that the token says, and its place: that of the token, or its own in a literal. -/
inductive Token.Refers : Token → Location → Reference → Prop where
  | reference (place : Location) (ref : Reference) : Refers (place.token (.reference ref)) place ref
  | segment (place : Location) {segments : List (Segment × Range)} {range : Range} {ref : Reference}
    (h : (.reference ref, range) ∈ segments) : Refers (place.token (.literal segments)) ⟨place.file, range⟩ ref

/-! ## Phrases -/

namespace Grammar

/-- What is put together from tokens of which the one thing holds has the other, in place or as the value of an
argument. -/
structure Closed (scope : CallScope) (holds : Token → Prop) (P : (asArgument : Bool) → Node → Prop) : Prop where
  literal {token : Token} (htoken : holds token) (range : Range) (text : String) :
    P false (.literal ⟨token.file, range⟩ text)
  emitted {token : Token} (htoken : holds token) {location : Location} {ref : Reference}
    (hrefers : token.Refers location ref) {mode : RefMode} (hmode : mode ≠ .passed) :
    P false (.reference location mode ref.path)
  passed {token : Token} (htoken : holds token) {location : Location} {ref : Reference}
    (hrefers : token.Refers location ref) : P true (.reference location .passed ref.path)
  deferred {token : Token} (htoken : holds token) (range : Range) {inner : Node} (hinner : P false inner) :
    P true (.deferred ⟨token.file, range⟩ inner)
  call {place : Location} {name : String} (htoken : holds (place.token (.ident name))) {args : List (String × Node)}
    (hnames : (args.map Prod.fst).Nodup) (hgiven : ∀ arg ∈ args, ∃ place, holds (Location.token place (.ident arg.1)))
    (hargs : ∀ arg ∈ args, P true arg.2) : P false (.call place (scope.binding name) name args)
  body {token : Token} (htoken : holds token) (range : Range) {children : List Node}
    (hchildren : ∀ child ∈ children, P false child) : P false (.body ⟨token.file, range⟩ children)

namespace Closed

variable {scope : CallScope} {holds : Token → Prop} {P : Bool → Node → Prop}

theorem ofReference (hP : Closed scope holds P) {token : Token} (htoken : holds token) {location : Location}
    {ref : Reference} (hrefers : token.Refers location ref) : P false (.ofReference location ref) := by
  unfold Node.ofReference
  refine hP.emitted htoken hrefers ?_
  split <;> exact nofun

/-- A token of a reference stands for a reference. -/
theorem reference (hP : Closed scope holds P) {place : Location} {ref : Reference}
    (h : holds (place.token (.reference ref))) : P false (.ofReference place ref) :=
  hP.ofReference h (.reference place ref)

theorem ofLiteral (hP : Closed scope holds P) {place : Location} {segments : List (Segment × Range)}
    (h : holds (place.token (.literal segments))) :
    P false (.ofLiteral (place.token (.literal segments)) segments) := by
  unfold Node.ofLiteral
  dsimp only
  generalize hnodes : List.map _ segments = nodes
  have hall : ∀ node ∈ nodes, P false node := by
    intro node hnode
    rw [← hnodes] at hnode
    obtain ⟨⟨segment, range⟩, hsegment, rfl⟩ := List.mem_map.mp hnode
    cases segment with
    | text content => exact hP.literal h range content
    | reference ref => exact hP.ofReference h (.segment place hsegment)
  split
  · exact hP.literal h place.range ""
  · exact hall _ List.mem_cons_self
  · exact hP.body h place.range hall

theorem selectorValue (hP : Closed scope holds P) {value : SelectorValue} (h : holds value.token) :
    P false value.node := by
  cases value with
  | ident place name => exact hP.literal h place.range name
  | reference place ref => exact hP.reference h

theorem attrValue (hP : Closed scope holds P) {value : AttrValue} (h : holds value.token) : P false value.node := by
  cases value with
  | quote place text => exact hP.literal h place.range text
  | reference place ref => exact hP.reference h

theorem modifierValue (hP : Closed scope holds P) {mod : TagModifier} (h : ∀ token ∈ mod.tokens, holds token) :
    P false mod.modifier.value := by
  cases mod with
  | id hash value => exact hP.selectorValue (h value.token (by simp [TagModifier.tokens]))
  | styleClass dot value => exact hP.selectorValue (h value.token (by simp [TagModifier.tokens]))
  | attr lbracket namePlace name equal value rbracket =>
    exact hP.attrValue (h value.token (by simp [TagModifier.tokens]))

theorem tag (hP : Closed scope holds P) {place : Location} {name : String} (h : holds (place.token (.ident name)))
    {mods : List TagModifier} (hmods : ∀ token ∈ mods.flatMap TagModifier.tokens, holds token) {content : Option Node}
    (hcontent : ∀ node ∈ content, P false node) :
    P false (.tag place name (mods.map TagModifier.modifier) content) := by
  have hvalues : ∀ modifier ∈ mods.map TagModifier.modifier, P false modifier.value := by
    intro modifier hmodifier
    obtain ⟨mod, hmod, rfl⟩ := List.mem_map.mp hmodifier
    exact hP.modifierValue fun token htoken => hmods token (List.mem_flatMap.mpr ⟨mod, hmod, htoken⟩)
  have hbody : ∃ children, Node.tag place name (mods.map TagModifier.modifier) content = Node.body place children ∧
      ∀ child ∈ children, P false child := Node.forall_tag (hP.literal h place.range) hvalues hcontent
  obtain ⟨children, htag, hchildren⟩ := hbody
  rw [htag]
  exact hP.body h place.range hchildren

mutual

/-- What an item stands for is in place. -/
theorem nodes (hP : Closed scope holds P) : ∀ item : Item, (∀ token ∈ item.tokens, holds token) →
    ∀ node ∈ item.nodes scope, P false node
  | .comment _, _ => nofun
  | .literal _ _, h => List.forall_mem_singleton.mpr (hP.ofLiteral (h _ List.mem_cons_self))
  | .reference _ _, h => List.forall_mem_singleton.mpr (hP.reference (h _ List.mem_cons_self))
  | .tag place name mods none, h => by
    obtain ⟨hplace, hmods⟩ := List.forall_mem_cons.mp h
    exact List.forall_mem_singleton.mpr (hP.tag hplace hmods nofun)
  | .tag place name mods (some block), h => by
    obtain ⟨hplace, hmore⟩ := List.forall_mem_cons.mp h
    obtain ⟨hmods, hblock⟩ := List.forall_mem_append.mp hmore
    have hcontent : ∀ node ∈ some (block.node scope), P false node := by
      intro node hnode
      cases hnode
      exact blockNode hP block hblock
    exact List.forall_mem_singleton.mpr (hP.tag hplace hmods hcontent)
  | .emptyCall place name lparen comments rparen, h =>
    List.forall_mem_singleton.mpr (hP.call (h _ List.mem_cons_self) List.nodup_nil nofun nofun)
  | .call place name lparen comments args, h => by
    have hargs : ∀ arg ∈ args.values scope, (∃ place, holds (Location.token place (.ident arg.1))) ∧ P true arg.2 :=
      values hP args fun token htoken => h token (List.mem_append_right _ htoken)
    -- The arguments of the call are some of those that are written, each name once.
    refine List.forall_mem_singleton.mpr (hP.call (h _ List.mem_cons_self) (nodup_lastValues _) ?_ ?_)
    · exact fun arg harg => (hargs arg (mem_of_mem_lastValues harg)).1
    · exact fun arg harg => (hargs arg (mem_of_mem_lastValues harg)).2

theorem allNodes (hP : Closed scope holds P) : ∀ items : List Item, (∀ token ∈ Item.allTokens items, holds token) →
    ∀ node ∈ Item.allNodes scope items, P false node
  | [], _ => nofun
  | item :: items, h => by
    obtain ⟨hitem, hitems⟩ := List.forall_mem_append.mp h
    exact List.forall_mem_append.mpr ⟨nodes hP item hitem, allNodes hP items hitems⟩

theorem blockNode (hP : Closed scope holds P) : ∀ block : Block, (∀ token ∈ block.tokens, holds token) →
    P false (block.node scope)
  | .mk lbrace items rbrace, h => by
    obtain ⟨hmore, -⟩ := List.forall_mem_append.mp h
    obtain ⟨hlbrace, hitems⟩ := List.forall_mem_cons.mp hmore
    exact hP.body hlbrace lbrace.range (allNodes hP items hitems)

/-- The values of arguments are passed references and deferred trees. -/
theorem values (hP : Closed scope holds P) : ∀ args : Grammar.Arguments, (∀ token ∈ args.tokens, holds token) →
    ∀ arg ∈ args.values scope, (∃ place, holds (Location.token place (.ident arg.1))) ∧ P true arg.2
  | .last arg rparen, h => List.forall_mem_singleton.mpr (value hP arg (List.forall_mem_append.mp h).1)
  | .more arg comma args, h => by
    obtain ⟨harg, hmore⟩ := List.forall_mem_append.mp h
    obtain ⟨-, hargs⟩ := List.forall_mem_cons.mp hmore
    exact List.forall_mem_cons.mpr ⟨value hP arg harg, values hP args hargs⟩

theorem value (hP : Closed scope holds P) : ∀ arg : Argument, (∀ token ∈ arg.tokens, holds token) →
    (∃ place, holds (Location.token place (.ident (arg.value scope).1))) ∧ P true (arg.value scope).2
  | .mk before place name colon value after, h => by
    have hname : holds (place.token (.ident name)) := h _ (by simp [Argument.tokens])
    refine ⟨⟨place, hname⟩, valueNode hP value fun token htoken => h token ?_⟩
    simp only [Argument.tokens, List.mem_append, List.mem_cons]
    exact .inl (.inr (.inr (.inr htoken)))

theorem valueNode (hP : Closed scope holds P) : ∀ value : ArgumentValue, (∀ token ∈ value.tokens, holds token) →
    P true (value.node scope)
  | .reference place ⟨path, false⟩, h => hP.passed (h _ List.mem_cons_self) (.reference place _)
  | .reference place ⟨path, true⟩, h => by
    have htoken := h _ List.mem_cons_self
    have hmode : RefMode.escaped ≠ .passed := nofun
    have hinner : P false (.reference place .escaped path) := hP.emitted htoken (.reference place _) hmode
    exact hP.deferred htoken place.range hinner
  | .quote place text, h => by
    have htoken := h _ List.mem_cons_self
    exact hP.deferred htoken place.range (hP.literal htoken place.range text)
  | .literal place segments, h => by
    have htoken := h _ List.mem_cons_self
    exact hP.deferred htoken place.range (hP.ofLiteral htoken)
  | .block (.mk lbrace items rbrace), h =>
    hP.deferred (h _ List.mem_cons_self) lbrace.range (blockNode hP (.mk lbrace items rbrace) h)

end

/-- **The tree of a definition** is in place. -/
theorem definition (hP : Closed scope holds P) {d : Def} (h : ∀ token ∈ d.tokens, holds token) :
    P false (d.definition scope).body := by
  obtain ⟨-, hmore⟩ := List.forall_mem_cons.mp h
  obtain ⟨-, hblock⟩ := List.forall_mem_cons.mp hmore
  exact blockNode hP d.block hblock

end Closed

end Grammar

end HtmlTemplate
