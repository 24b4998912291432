import HtmlTemplate.Proofs.Grammar.Basic
import HtmlTemplate.Proofs.Render.Writes

/-!
# Safe templates

A template is safe if the texts that it is made of hold no delimiters and what it emits of its parameters is escaped.
This can be seen from the tokens. A reference that is not escaped is emitted unless it is the value of an argument, and
values of arguments are what stands behind colons, which the grammar has nowhere else (`Token.allSafe`).

The derivation of a definition is followed from left to right. Each phrase takes its tokens off the front of a safe
list, and the list that it leaves is safe and does not start with the value of an argument (`Grammar.Item.emits`).

## Contents

* `Token.isSafe`, `Token.allSafe` — safe tokens;
* `Sound` — a list of safe tokens whose names are identifiers;
* `Grammar.TagModifier.emits`, `Grammar.Item.emits`, `Grammar.Block.emits` — what the trees of phrases write;
* `Grammar.Def.emits` — the tree of a definition writes HTML.
-/

namespace HtmlTemplate

open Node (Emits)

/-! ## Safe tokens -/

/-- Whether the segment of a literal writes no delimiters. -/
def Segment.isSafe : Segment → Bool
  | .text content => decide (IsPlain content)
  | .reference ref => ref.escape

namespace Token

/-- Whether the token writes no delimiters. The value of an argument may be a reference that is not escaped. -/
def isSafe (isValue : Bool) (token : Token) : Bool :=
  match token.kind with
  | .literal segments => segments.all fun segment => segment.1.isSafe
  | .quote text => decide (IsPlain text)
  | .reference ref => ref.escape || isValue
  | _ => true

/-- Whether the value of an argument comes behind the token: it does behind a colon, comments apart. -/
def valueFollows (isValue : Bool) (token : Token) : Bool :=
  match token.kind with
  | .colon => true
  | .comment _ => isValue
  | _ => false

/-- Whether all tokens are safe, where `isValue` tells whether the first of them is the value of an argument. -/
def allSafe : (isValue : Bool) → List Token → Bool
  | _, [] => true
  | isValue, token :: tokens => token.isSafe isValue && allSafe (token.valueFollows isValue) tokens

end Token

/-- The tokens are safe, and their names are identifiers. -/
structure Sound (isValue : Bool) (tokens : List Token) : Prop where
  safe : Token.allSafe isValue tokens = true
  named : ∀ token ∈ tokens, ∀ name, token.kind = .ident name → IsIdentifier name

namespace Sound

variable {isValue : Bool} {token : Token} {tokens more : List Token}

theorem head (h : Sound isValue (token :: tokens)) : token.isSafe isValue = true := by
  have hsafe := h.safe
  rw [Token.allSafe, Bool.and_eq_true] at hsafe
  exact hsafe.1

theorem tail (h : Sound isValue (token :: tokens)) : Sound (token.valueFollows isValue) tokens := by
  have hsafe := h.safe
  rw [Token.allSafe, Bool.and_eq_true] at hsafe
  exact ⟨hsafe.2, fun other hother => h.named other (List.mem_cons_of_mem _ hother)⟩

theorem isIdentifier {place : Location} {name : String} (h : Sound isValue (place.token (.ident name) :: tokens)) :
    IsIdentifier name := h.named _ List.mem_cons_self name rfl

/-- A reference that is not the value of an argument is escaped. -/
theorem escape {place : Location} {ref : Reference} (h : Sound false (place.token (.reference ref) :: tokens)) :
    ref.escape = true := by
  have hsafe : (ref.escape || false) = true := h.head
  rwa [Bool.or_false] at hsafe

theorem of_append (h : Sound isValue (tokens ++ more)) : ∃ isValue, Sound isValue more := by
  induction tokens generalizing isValue with
  | nil => exact ⟨isValue, h⟩
  | cons token tokens ih => exact ih h.tail

/-- Behind a closing parenthesis there is no value of an argument, whatever stands in front of it. -/
theorem behind_rparen {rparen : Location} (h : Sound isValue (tokens ++ rparen.token .rparen :: more)) :
    Sound false more := by
  obtain ⟨_, hrparen⟩ := h.of_append
  exact hrparen.tail

end Sound

namespace Grammar

/-! ## Modifiers -/

theorem emits_ofReference {place : Location} {ref : Reference} (h : ref.escape = true) :
    Emits [.ofReference place ref] IsPlain := by
  rw [Node.ofReference, if_pos h]
  exact .reference place ref.path

theorem SelectorValue.emits {value : SelectorValue} {more : List Token} (h : Sound false (value.token :: more)) :
    Emits [value.node] IsPlain ∧ Sound false more := by
  cases value with
  | ident place name => exact ⟨.literal h.isIdentifier.isPlain, h.tail⟩
  | reference place ref => exact ⟨emits_ofReference h.escape, h.tail⟩

theorem AttrValue.emits {value : AttrValue} {more : List Token} (h : Sound false (value.token :: more)) :
    Emits [value.node] IsPlain ∧ Sound false more := by
  cases value with
  | quote place text =>
    have htext : IsPlain text := of_decide_eq_true h.head
    exact ⟨.literal htext, h.tail⟩
  | reference place ref => exact ⟨emits_ofReference h.escape, h.tail⟩

theorem TagModifier.emits {mod : TagModifier} {more : List Token} (h : Sound false (mod.tokens ++ more)) :
    mod.modifier.EmitsPlain ∧ Sound false more := by
  cases mod with
  | id hash value => exact SelectorValue.emits h.tail
  | styleClass dot value => exact SelectorValue.emits h.tail
  | attr lbracket namePlace name equal value rbracket =>
    have hname : Sound false (namePlace.token (.ident name) :: _) := h.tail
    obtain ⟨hvalue, hrbracket⟩ := AttrValue.emits hname.tail.tail
    exact ⟨⟨hname.isIdentifier, hvalue⟩, hrbracket.tail⟩

theorem TagModifier.emits_all {mods : List TagModifier} {more : List Token}
    (h : Sound false (mods.flatMap TagModifier.tokens ++ more)) :
    (∀ modifier ∈ mods.map TagModifier.modifier, modifier.EmitsPlain) ∧ Sound false more := by
  induction mods with
  | nil => exact ⟨nofun, h⟩
  | cons mod mods ih =>
    rw [List.flatMap_cons, List.append_assoc] at h
    obtain ⟨hmod, hmods⟩ := TagModifier.emits h
    obtain ⟨hall, hmore⟩ := ih hmods
    exact ⟨List.forall_mem_cons.mpr ⟨hmod, hall⟩, hmore⟩

/-! ## Items -/

/-- A literal writes a plain text. -/
theorem emits_ofLiteral {place : Location} {segments : List (Segment × Range)} {isValue : Bool} {more : List Token}
    (h : Sound isValue (place.token (.literal segments) :: more)) :
    Emits [.ofLiteral (place.token (.literal segments)) segments] IsPlain := by
  have hsafe : ∀ segment ∈ segments, segment.1.isSafe = true := List.all_eq_true.mp h.head
  unfold Node.ofLiteral
  dsimp only
  generalize hnodes : List.map _ segments = nodes
  have hall : ∀ node ∈ nodes, Emits [node] IsPlain := by
    intro node hnode
    rw [← hnodes] at hnode
    obtain ⟨⟨segment, range⟩, hsegment, rfl⟩ := List.mem_map.mp hnode
    have hsegment : segment.isSafe = true := hsafe _ hsegment
    cases segment with
    | text content => exact .literal (of_decide_eq_true hsegment)
    | reference ref => exact emits_ofReference hsegment
  split
  · exact .literal rfl
  · exact hall _ List.mem_cons_self
  · exact .body (.of_forall rfl (fun _ _ => IsPlain.append) hall)

/-- The arguments of a call end with its parenthesis. -/
theorem Arguments.exists_tokens (args : Arguments) :
    ∃ front rparen, args.tokens = front ++ [Location.token rparen .rparen] := by
  cases args with
  | last arg rparen => exact ⟨arg.tokens, rparen, rfl⟩
  | more arg comma args =>
    obtain ⟨front, rparen, hargs⟩ := args.exists_tokens
    exact ⟨arg.tokens ++ comma.token .comma :: front, rparen, by rw [Arguments.tokens, hargs, List.append_assoc]; rfl⟩

variable (scope : CallScope)

mutual

/-- An item writes HTML and leaves a safe list. -/
theorem Item.emits : ∀ {item : Item} {more : List Token}, Sound false (item.tokens ++ more) →
    Emits (item.nodes scope) IsHtml ∧ Sound false more
  | .comment _, _, h => ⟨.nil .nil, h.tail⟩
  | .literal _ _, _, h => by
    have hplain := emits_ofLiteral h
    exact ⟨hplain.mono fun _ => IsPlain.isHtml, h.tail⟩
  | .reference place ref, _, h => by
    have hplain : Emits [.ofReference place ref] IsPlain := emits_ofReference h.escape
    exact ⟨hplain.mono fun _ => IsPlain.isHtml, h.tail⟩
  | .tag _ _ mods none, _, h => by
    obtain ⟨hmods, hmore⟩ := TagModifier.emits_all h.tail
    exact ⟨.tag h.isIdentifier hmods (.nil .nil), hmore⟩
  | .tag place name mods (some block), more, h => by
    have hmods : Sound false (mods.flatMap TagModifier.tokens ++ (block.tokens ++ more)) := by
      rw [← List.append_assoc]
      exact h.tail
    obtain ⟨hmods, hblock⟩ := TagModifier.emits_all hmods
    obtain ⟨hcontent, hmore⟩ := Block.emits hblock
    exact ⟨.tag h.isIdentifier hmods hcontent, hmore⟩
  | .emptyCall place name lparen comments rparen, more, h => by
    have hparens : Sound false (commentTokens comments ++ rparen.token .rparen :: more) := by
      rw [List.append_cons]
      exact h.tail.tail
    exact ⟨.call place _ name [], hparens.behind_rparen⟩
  | .call place name lparen comments args, more, h => by
    -- Whatever the arguments are, a call writes none of them; they are passed over up to the parenthesis.
    obtain ⟨front, rparen, hargs⟩ := args.exists_tokens
    have hparens : Sound false (commentTokens comments ++ front ++ rparen.token .rparen :: more) := by
      rw [List.append_cons, List.append_assoc _ front, ← hargs]
      exact h.tail.tail
    exact ⟨.call place _ name _, hparens.behind_rparen⟩

theorem Item.emits_all : ∀ {items : List Item} {more : List Token}, Sound false (Item.allTokens items ++ more) →
    Emits (Item.allNodes scope items) IsHtml ∧ Sound false more
  | [], _, h => ⟨.nil .nil, h⟩
  | item :: items, _, h => by
    rw [Item.allTokens, List.append_assoc] at h
    obtain ⟨hitem, hitems⟩ := Item.emits h
    obtain ⟨hall, hmore⟩ := Item.emits_all hitems
    exact ⟨hitem.append hall fun _ _ => IsHtml.append, hmore⟩

theorem Block.emits : ∀ {block : Block} {more : List Token}, Sound false (block.tokens ++ more) →
    Emits [block.node scope] IsHtml ∧ Sound false more
  | .mk lbrace items rbrace, more, h => by
    have hitems : Sound false (Item.allTokens items ++ (rbrace.token .rbrace :: more)) := by
      rw [List.append_cons]
      exact h.tail
    obtain ⟨hitems, hrbrace⟩ := Item.emits_all hitems
    exact ⟨.body hitems, hrbrace.tail⟩

end

/-- **The tree of a safe definition writes HTML.** -/
theorem Def.emits {d : Def} {isValue : Bool} {more : List Token} (h : Sound isValue (d.tokens ++ more)) :
    Emits [(d.definition scope).body] IsHtml := by
  have hblock : Sound false (d.block.tokens ++ more) := h.tail.tail
  exact (Block.emits scope hblock).1

end Grammar

end HtmlTemplate
