import HtmlTemplate.Proofs.Grammar.InTurn

/-!
# Comments do not matter

Comments may stand between definitions, between the items of a block, behind the parenthesis that opens a call, and
around its arguments. A phrase stands for the same without them, and its tokens are the others then. So what is read
from some tokens is read again when comments are taken away from them, or are put into any of these places, however
deep (`definitions_recommented`, `definitions_filter`).

## Contents

* `TokenKind.isComment` — tokens that are comments;
* `Item.bare`, `Block.bare`, `Arguments.bare`, `Def.bare` — phrases without comments;
* `Item.allNodes_bare`, `Block.node_bare` — they stand for the same;
* `Item.allTokens_bare`, `Block.tokens_bare` — their tokens are those that are no comments;
* `bareDefs` — what is left of a source without comments;
* `definitions_recommented`, `definitions_filter` — the definitions that are read.
-/

namespace HtmlTemplate

/-- The token is a comment. -/
def TokenKind.isComment {α : Type} : TokenKind α → Bool
  | comment _ => true
  | _ => false

/-- The token is none. -/
def Token.isOther (token : Token) : Bool := !token.kind.isComment

namespace Grammar

/-! ## Phrases without comments -/

mutual

/-- What is left of an item: nothing of a comment. -/
def Item.bare : Item → List Item
  | .comment _ => []
  | .tag place name modifiers (some block) => [.tag place name modifiers (some block.bare)]
  | .emptyCall place name lparen _ rparen => [.emptyCall place name lparen [] rparen]
  | .call place name lparen _ args => [.call place name lparen [] args.bare]
  | item => [item]

def Item.bareAll : List Item → List Item
  | [] => []
  | item :: items => item.bare ++ Item.bareAll items

def Block.bare : Block → Block
  | .mk lbrace items rbrace => .mk lbrace (Item.bareAll items) rbrace

def Arguments.bare : Arguments → Arguments
  | .last arg rparen => .last arg.bare rparen
  | .more arg comma args => .more arg.bare comma args.bare

def Argument.bare : Argument → Argument
  | .mk _ place name colon value _ => .mk [] place name colon value.bare []

def ArgumentValue.bare : ArgumentValue → ArgumentValue
  | .block block => .block block.bare
  | value => value

end

/-! ### Trees -/

variable (scope : CallScope)

mutual

/-- An item stands for the same without its comments. -/
theorem Item.allNodes_bare : ∀ item : Item, Item.allNodes scope item.bare = item.nodes scope
  | .comment _ => rfl
  | .literal _ _ => rfl
  | .reference _ _ => rfl
  | .tag _ _ _ none => rfl
  | .tag _ _ _ (some block) => by
    rw [Item.bare, Item.allNodes, Item.allNodes, Item.nodes, Item.nodes, Block.node_bare block, List.append_nil]
  | .emptyCall _ _ _ _ _ => rfl
  | .call _ _ _ _ args => by
    rw [Item.bare, Item.allNodes, Item.allNodes, Item.nodes, Item.nodes, Arguments.values_bare args, List.append_nil]

theorem Item.allNodes_bareAll : ∀ items : List Item,
    Item.allNodes scope (Item.bareAll items) = Item.allNodes scope items
  | [] => rfl
  | item :: items => by
    rw [Item.bareAll, allNodes_append, Item.allNodes_bare item, Item.allNodes_bareAll items, Item.allNodes]

theorem Block.node_bare : ∀ block : Block, block.bare.node scope = block.node scope
  | .mk _ items _ => by rw [Block.bare, Block.node, Block.node, Item.allNodes_bareAll items]

theorem Arguments.values_bare : ∀ args : Grammar.Arguments, args.bare.values scope = args.values scope
  | .last arg _ => by rw [Arguments.bare, Arguments.values, Arguments.values, Argument.value_bare arg]
  | .more arg _ args => by
    rw [Arguments.bare, Arguments.values, Arguments.values, Argument.value_bare arg, Arguments.values_bare args]

theorem Argument.value_bare : ∀ arg : Argument, arg.bare.value scope = arg.value scope
  | .mk _ _ _ _ value _ => by rw [Argument.bare, Argument.value, Argument.value, ArgumentValue.node_bare value]

theorem ArgumentValue.node_bare : ∀ value : ArgumentValue, value.bare.node scope = value.node scope
  | .reference _ _ => rfl
  | .quote _ _ => rfl
  | .literal _ _ => rfl
  | .block (.mk _ items _) => by
    rw [ArgumentValue.bare, Block.bare, ArgumentValue.node, ArgumentValue.node, Item.allNodes_bareAll items]

end

/-! ### Tokens -/

theorem filter_commentTokens (comments : List Comment) : (commentTokens comments).filter Token.isOther = [] := by
  rw [List.filter_eq_nil_iff]
  intro token hmem
  obtain ⟨comment, -, rfl⟩ := List.mem_map.mp hmem
  exact Bool.false_ne_true

theorem SelectorValue.isOther_token (value : SelectorValue) : value.token.isOther = true := by
  cases value <;> rfl

theorem AttrValue.isOther_token (value : AttrValue) : value.token.isOther = true := by
  cases value <;> rfl

theorem TagModifier.isOther_of_mem (modifier : TagModifier) : ∀ token ∈ modifier.tokens, token.isOther = true := by
  cases modifier with
  | id hash value | styleClass dot value =>
    exact List.forall_mem_cons.mpr ⟨rfl, List.forall_mem_singleton.mpr value.isOther_token⟩
  | attr lbracket namePlace name equal value rbracket =>
    have hclose : ∀ token ∈ [value.token, rbracket.token .rbracket], token.isOther = true :=
      List.forall_mem_cons.mpr ⟨value.isOther_token, List.forall_mem_singleton.mpr rfl⟩
    exact List.forall_mem_cons.mpr ⟨rfl, List.forall_mem_cons.mpr ⟨rfl, List.forall_mem_cons.mpr ⟨rfl, hclose⟩⟩⟩

/-- There is no comment among the tokens of modifiers. -/
theorem filter_modifiers (modifiers : List TagModifier) :
    (modifiers.flatMap TagModifier.tokens).filter Token.isOther = modifiers.flatMap TagModifier.tokens := by
  rw [List.filter_eq_self]
  intro token hmem
  obtain ⟨modifier, -, htoken⟩ := List.mem_flatMap.mp hmem
  exact modifier.isOther_of_mem token htoken

mutual

/-- The tokens of an item without its comments are those that are no comments. -/
theorem Item.allTokens_bare : ∀ item : Item, Item.allTokens item.bare = item.tokens.filter Token.isOther
  | .comment _ => rfl
  | .literal _ _ => rfl
  | .reference _ _ => rfl
  | .tag place name modifiers none => by
    show Item.allTokens [.tag place name modifiers none] = _
    rw [Item.allTokens, Item.allTokens, List.append_nil, Item.tokens, List.filter_cons_of_pos rfl, filter_modifiers]
  | .tag place name modifiers (some block) => by
    rw [Item.bare, Item.allTokens, Item.allTokens, List.append_nil, Item.tokens, Item.tokens, List.filter_append,
      List.filter_cons_of_pos rfl, filter_modifiers, Block.tokens_bare block]
  | .emptyCall place name lparen comments rparen => by
    rw [Item.bare, Item.allTokens, Item.allTokens, List.append_nil, Item.tokens, Item.tokens, List.filter_append,
      List.filter_cons_of_pos rfl, List.filter_cons_of_pos rfl, filter_commentTokens]
    rfl
  | .call place name lparen comments args => by
    rw [Item.bare, Item.allTokens, Item.allTokens, List.append_nil, Item.tokens, Item.tokens, List.filter_append,
      List.filter_cons_of_pos rfl, List.filter_cons_of_pos rfl, filter_commentTokens, Arguments.tokens_bare args]
    rfl

theorem Item.allTokens_bareAll : ∀ items : List Item,
    Item.allTokens (Item.bareAll items) = (Item.allTokens items).filter Token.isOther
  | [] => rfl
  | item :: items => by
    rw [Item.bareAll, allTokens_append, Item.allTokens_bare item, Item.allTokens_bareAll items, Item.allTokens,
      List.filter_append]

theorem Block.tokens_bare : ∀ block : Block, block.bare.tokens = block.tokens.filter Token.isOther
  | .mk lbrace items rbrace => by
    rw [Block.bare, Block.tokens, Block.tokens, List.filter_append, List.filter_cons_of_pos rfl,
      Item.allTokens_bareAll items]
    rfl

theorem Arguments.tokens_bare : ∀ args : Grammar.Arguments, args.bare.tokens = args.tokens.filter Token.isOther
  | .last arg rparen => by
    rw [Arguments.bare, Arguments.tokens, Arguments.tokens, List.filter_append, Argument.tokens_bare arg]
    rfl
  | .more arg comma args => by
    rw [Arguments.bare, Arguments.tokens, Arguments.tokens, List.filter_append, List.filter_cons_of_pos rfl,
      Argument.tokens_bare arg, Arguments.tokens_bare args]

theorem Argument.tokens_bare : ∀ arg : Argument, arg.bare.tokens = arg.tokens.filter Token.isOther
  | .mk before place name colon value after => by
    rw [Argument.bare, Argument.tokens, Argument.tokens, List.filter_append, List.filter_append,
      List.filter_cons_of_pos rfl, List.filter_cons_of_pos rfl, filter_commentTokens, filter_commentTokens,
      ArgumentValue.tokens_bare value]
    rfl

theorem ArgumentValue.tokens_bare : ∀ value : ArgumentValue, value.bare.tokens = value.tokens.filter Token.isOther
  | .reference _ _ => rfl
  | .quote _ _ => rfl
  | .literal _ _ => rfl
  | .block block => by rw [ArgumentValue.bare, ArgumentValue.tokens, ArgumentValue.tokens, Block.tokens_bare block]

end

/-! ## Definitions without comments -/

/-- The definition without its comments. -/
def Def.bare (d : Def) : Def := { d with block := d.block.bare }

theorem Def.definition_bare (d : Def) : d.bare.definition scope = d.definition scope := by
  unfold Def.definition Def.bare
  rw [Block.node_bare]

theorem Def.tokens_bare (d : Def) : d.bare.tokens = d.tokens.filter Token.isOther := by
  unfold Def.tokens Def.bare
  rw [Block.tokens_bare, List.filter_cons_of_pos rfl, List.filter_cons_of_pos rfl]

/-- What is left of the parts of a source without comments. Sources are the same in it if they differ in comments
    only: in those between definitions, between the items of blocks, behind the opening parentheses of calls, and in
    front of the names and behind the values of arguments. -/
def bareDefs (parts : List Part) : List Def := (parts.filterMap Part.def?).map Def.bare

/-- Nothing is lost but the comments. -/
theorem tokens_bareDefs (parts : List Part) :
    (bareDefs parts).flatMap Def.tokens = (parts.flatMap Part.tokens).filter Token.isOther := by
  induction parts with
  | nil => rfl
  | cons part parts ih =>
    rw [List.flatMap_cons, List.filter_append, ← ih]
    cases part with
    | comment comment => rfl
    | definition d =>
      rw [Part.tokens, ← Def.tokens_bare]
      rfl

end Grammar

/-! ## The definitions that are read -/

namespace Definition

open Grammar

variable {scope : CallScope} {tokens rest : List Token}

/-- Nothing comes, or the end of the source. -/
def IsEnd (rest : List Token) : Prop := ∀ token ∈ rest.head?, token.kind = .eof

theorem inTurn_of_isEnd (h : IsEnd rest) : inTurn scope rest = ([], none) := by
  cases rest with
  | nil => exact inTurn_of_none rfl
  | cons token rest =>
    obtain ⟨kind, range, file⟩ := token
    obtain rfl : kind = .eof := h _ rfl
    exact inTurn_of_none rfl

/-- Comments and definitions up to the end are read. -/
theorem definitions_parts (parts : List Part) (h : IsEnd rest) :
    definitions scope (parts.flatMap Part.tokens ++ rest) =
      .ok ((parts.filterMap Part.def?).map (Def.definition scope)) := by
  rw [definitions_eq_inTurn, inTurn_parts, inTurn_of_isEnd h, List.append_nil]

/-- Tokens that can be read are comments and definitions up to the end. -/
theorem exists_parts_of_definitions {definitions : List Definition}
    (h : HtmlTemplate.definitions scope tokens = .ok definitions) :
    ∃ (parts : List Part) (rest : List Token), tokens = parts.flatMap Part.tokens ++ rest ∧ IsEnd rest := by
  obtain ⟨parts, rest, rfl, hrest⟩ := exists_parts scope tokens
  rw [definitions_eq_inTurn, inTurn_parts] at h
  dsimp only at h
  cases hnext : nextDefinition scope rest with
  | error error behind =>
    rw [inTurn_of_error hnext] at h
    cases h
  | ok found behind =>
    cases found with
    | some definition => exact absurd hnext (hrest definition behind)
    | none =>
      -- The comments in front of the end are parts as well.
      obtain ⟨comments, hcomments⟩ := nextDefinition_eq_none.mp hnext
      refine ⟨parts ++ commentParts comments, ?_⟩
      rw [List.flatMap_append, tokens_commentParts]
      rcases hcomments with ⟨rfl, -⟩ | ⟨eof, rfl⟩
      · exact ⟨[], by rw [List.append_nil], nofun⟩
      · refine ⟨eof.token .eof :: behind, by rw [List.append_assoc], ?_⟩
        rintro token htoken
        cases htoken
        rfl

/-- What is read does not depend on comments. -/
theorem map_definition_bareDefs (scope : CallScope) (parts : List Part) :
    (bareDefs parts).map (Def.definition scope) = (parts.filterMap Part.def?).map (Def.definition scope) := by
  unfold bareDefs
  rw [List.map_map]
  exact List.map_congr_left fun d _ => d.definition_bare scope

/-- **Comments may be put in**, and taken away, between the parts of what can be read and inside of them. -/
theorem definitions_recommented {parts parts' : List Part} (hbare : bareDefs parts' = bareDefs parts)
    (hrest : IsEnd rest) :
    definitions scope (parts'.flatMap Part.tokens ++ rest) = definitions scope (parts.flatMap Part.tokens ++ rest) := by
  rw [definitions_parts parts' hrest, definitions_parts parts hrest, ← map_definition_bareDefs scope parts',
    ← map_definition_bareDefs scope parts, hbare]

/-- **Comments may be deleted**, all of them at once, from tokens that can be read. -/
theorem definitions_filter {definitions : List Definition}
    (h : HtmlTemplate.definitions scope tokens = .ok definitions) :
    HtmlTemplate.definitions scope (tokens.filter Token.isOther) = .ok definitions := by
  obtain ⟨parts, rest, rfl, hrest⟩ := exists_parts_of_definitions h
  have hend : IsEnd (rest.filter Token.isOther) := by
    cases rest with
    | nil => exact hrest
    | cons token rest =>
      have hkind : token.kind = .eof := hrest token rfl
      rw [List.filter_cons_of_pos (by rw [Token.isOther, hkind]; rfl)]
      exact hrest
  have htokens : (parts.flatMap Part.tokens).filter Token.isOther =
      ((bareDefs parts).map Part.definition).flatMap Part.tokens := by
    rw [← tokens_bareDefs, List.flatMap_map]
    rfl
  rw [definitions_parts parts hrest] at h
  rw [List.filter_append, htokens, definitions_parts _ hend, ← h, ← map_definition_bareDefs scope parts,
    List.filterMap_map]
  exact congrArg (fun defs => Except.ok (List.map (Def.definition scope) defs)) (List.filterMap_some ..)

end Definition

end HtmlTemplate
