import HtmlTemplate.Proofs.Grammar.Blocks

/-!
# Tokens tell their derivation

A derivation is known by its tokens, but for the comments that can be given to a call or to its first argument.
Where a phrase ends never depends on what follows it, as long as that does not go on with a name: two phrases
with more tokens behind them that are the same tokens all in all are the same phrase, and so is what follows.

## Contents

* `commentTokens_append_inj`, `modifiers_append_inj` — phrases without blocks;
* `Item.settle_eq`, `Block.settle_eq`, `Arguments.settle_eq` — phrases told from their tokens;
* `Item.tokens_settle`, `Block.tokens_settle` — settling moves no token.
-/

namespace HtmlTemplate

namespace Grammar

open Definition TokenReader

variable {rest rest' : List Token}

/-! ## Phrases without blocks -/

@[simp] theorem token_inj {place place' : Location} {kind kind' : TokenKind Range} :
    place.token kind = place'.token kind' ↔ place = place' ∧ kind = kind' := by
  refine ⟨fun h => ⟨congrArg Token.location h, congrArg Token.kind h⟩, ?_⟩
  rintro ⟨rfl, rfl⟩
  rfl

theorem token_cons_inj {place place' : Location} {kind kind' : TokenKind Range} :
    place.token kind :: rest = place'.token kind' :: rest' ↔ place = place' ∧ kind = kind' ∧ rest = rest' := by
  rw [List.cons.injEq, token_inj, and_assoc]

theorem Comment.token_injective : Function.Injective Comment.token := by
  rintro ⟨place, text⟩ ⟨place', text'⟩ h
  obtain ⟨rfl, hkind⟩ := token_inj.mp h
  cases hkind
  rfl

/-- Comments end where a token comes that is none. -/
theorem commentTokens_append_inj {comments comments' : List Comment} (hrest : NoComment rest)
    (hrest' : NoComment rest') (h : commentTokens comments ++ rest = commentTokens comments' ++ rest') :
    comments = comments' ∧ rest = rest' := by
  have hskip := congrArg skipComments h
  rw [skipComments_append, skipComments_append, skipComments_of_noComment hrest,
    skipComments_of_noComment hrest'] at hskip
  cases hskip
  exact ⟨List.map_injective_iff.mpr Comment.token_injective (List.append_cancel_right h), rfl⟩

theorem SelectorValue.token_injective : Function.Injective SelectorValue.token := by
  rintro (⟨place, name⟩ | ⟨place, ref⟩) (⟨place', name'⟩ | ⟨place', ref'⟩) h
  all_goals
    obtain ⟨rfl, hkind⟩ := token_inj.mp h
    cases hkind
    try rfl

theorem AttrValue.token_injective : Function.Injective AttrValue.token := by
  rintro (⟨place, text⟩ | ⟨place, ref⟩) (⟨place', text'⟩ | ⟨place', ref'⟩) h
  all_goals
    obtain ⟨rfl, hkind⟩ := token_inj.mp h
    cases hkind
    try rfl

theorem TagModifier.tokens_append_inj {mod mod' : TagModifier} (h : mod.tokens ++ rest = mod'.tokens ++ rest') :
    mod = mod' ∧ rest = rest' := by
  cases mod <;> cases mod' <;>
    simp only [TagModifier.tokens, List.cons_append, List.nil_append, List.cons.injEq, token_inj, reduceCtorEq,
      and_false, false_and, and_true, TokenKind.ident.injEq] at h
  · obtain ⟨rfl, hvalue, rfl⟩ := h
    rw [SelectorValue.token_injective hvalue]
    exact ⟨rfl, rfl⟩
  · obtain ⟨rfl, hvalue, rfl⟩ := h
    rw [SelectorValue.token_injective hvalue]
    exact ⟨rfl, rfl⟩
  · obtain ⟨rfl, ⟨rfl, rfl⟩, rfl, hvalue, rfl, rfl⟩ := h
    rw [AttrValue.token_injective hvalue]
    exact ⟨rfl, rfl⟩

/-- Modifiers end where a token comes that starts none. -/
theorem modifiers_append_inj {mods mods' : List TagModifier} (hrest : NoModifier rest) (hrest' : NoModifier rest')
    (h : mods.flatMap TagModifier.tokens ++ rest = mods'.flatMap TagModifier.tokens ++ rest') :
    mods = mods' ∧ rest = rest' := by
  have hstarts : ∀ (mod : TagModifier) (more : List Token), ¬NoModifier (mod.tokens ++ more) := by
    intro mod more hmore
    cases mod <;> cases hmore _ rfl
  induction mods generalizing mods' with
  | nil =>
    cases mods' with
    | nil => exact ⟨rfl, h⟩
    | cons mod' mods' =>
      rw [List.flatMap_nil, List.nil_append, List.flatMap_cons, List.append_assoc] at h
      exact absurd (h ▸ hrest) (hstarts mod' _)
  | cons mod mods ih =>
    cases mods' with
    | nil =>
      rw [List.flatMap_nil, List.nil_append, List.flatMap_cons, List.append_assoc] at h
      exact absurd (h ▸ hrest') (hstarts mod _)
    | cons mod' mods' =>
      rw [List.flatMap_cons, List.flatMap_cons, List.append_assoc, List.append_assoc] at h
      obtain ⟨rfl, hmore⟩ := TagModifier.tokens_append_inj h
      obtain ⟨rfl, rfl⟩ := ih hmore
      exact ⟨rfl, rfl⟩

/-! ## Phrases with blocks -/

/-- Arguments are known by the comments in front of the first one and by the rest. -/
theorem Arguments.eq_of_withoutBefore {args args' : Grammar.Arguments} (hbefore : args.before = args'.before)
    (h : args.withoutBefore = args'.withoutBefore) : args = args' := by
  cases args with
  | last arg rparen =>
    obtain ⟨before, place, name, colon, value, after⟩ := arg
    cases args' with
    | last arg' rparen' =>
      obtain ⟨before', place', name', colon', value', after'⟩ := arg'
      cases hbefore
      cases h
      rfl
    | more arg' comma' args' =>
      obtain ⟨before', place', name', colon', value', after'⟩ := arg'
      cases h
  | more arg comma args =>
    obtain ⟨before, place, name, colon, value, after⟩ := arg
    cases args' with
    | last arg' rparen' =>
      obtain ⟨before', place', name', colon', value', after'⟩ := arg'
      cases h
    | more arg' comma' args' =>
      obtain ⟨before', place', name', colon', value', after'⟩ := arg'
      cases hbefore
      cases h
      rfl

theorem Arguments.before_settle (args : Grammar.Arguments) : args.settle.before = args.before := by
  cases args with
  | last arg rparen | more arg comma args =>
    obtain ⟨before, place, name, colon, value, after⟩ := arg
    rfl

/-- The tokens of a tag, with what follows it. -/
theorem tag_tokens_append (place : Location) (name : String) (mods : List TagModifier) (block : Option Block) :
    (Item.tag place name mods block).tokens ++ rest =
      place.token (.ident name) :: (mods.flatMap TagModifier.tokens ++ (block.elim [] Block.tokens ++ rest)) := by
  cases block with
  | none => rfl
  | some block => rw [Item.tokens, List.cons_append, List.cons_append, List.append_assoc]; rfl

/-- No parenthesis stands behind the name of a tag. -/
theorem behindTag_ne_lparen (mods : List TagModifier) (block : Option Block) (hrest : NameEnds rest) :
    (mods.flatMap TagModifier.tokens ++ (block.elim [] Block.tokens ++ rest)).head?.map Token.kind ≠
      some .lparen := by
  refine modifiers_ne_lparen mods ?_
  cases block with
  | none => exact fun hkind => Bool.noConfusion (hrest _ hkind)
  | some block =>
    obtain ⟨lbrace, xs, rbrace⟩ := block
    exact nofun

theorem behindTag_noModifier (block : Option Block) (hrest : NameEnds rest) :
    NoModifier (block.elim [] Block.tokens ++ rest) := by
  cases block with
  | none => exact hrest.noModifier
  | some block =>
    obtain ⟨lbrace, xs, rbrace⟩ := block
    rintro kind hkind
    cases hkind
    rfl

/-- The tokens of a call with arguments, with what follows it. -/
theorem call_tokens_append (place : Location) (name : String) (lparen : Location) (comments : List Comment)
    (args : Grammar.Arguments) :
    (Item.call place name lparen comments args).tokens ++ rest =
      place.token (.ident name) :: lparen.token .lparen ::
        (commentTokens (comments ++ args.before) ++ (args.withoutBefore.tokens ++ rest)) := by
  rw [Item.tokens, tokens_withoutBefore, commentTokens, commentTokens, commentTokens, List.map_append]
  simp only [List.cons_append, List.append_assoc]

theorem emptyCall_tokens_append (place : Location) (name : String) (lparen : Location) (comments : List Comment)
    (rparen : Location) :
    (Item.emptyCall place name lparen comments rparen).tokens ++ rest =
      place.token (.ident name) :: lparen.token .lparen ::
        (commentTokens comments ++ rparen.token .rparen :: rest) := by
  simp only [Item.tokens, List.cons_append, List.append_assoc, List.nil_append]

/-- The tokens of one argument and the closing parenthesis, with what follows them. -/
theorem last_tokens_append (before : List Comment) (place : Location) (name : String) (colon : Location)
    (value : ArgumentValue) (after : List Comment) (rparen : Location) :
    (Arguments.last (.mk before place name colon value after) rparen).withoutBefore.tokens ++ rest =
      place.token (.ident name) :: colon.token .colon ::
        (value.tokens ++ (commentTokens after ++ rparen.token .rparen :: rest)) := by
  simp only [Arguments.withoutBefore, Arguments.tokens, Argument.tokens, commentTokens, List.map_nil,
    List.nil_append, List.cons_append, List.append_assoc]

/-- The tokens of an argument and more of them, with what follows them. -/
theorem more_tokens_append (before : List Comment) (place : Location) (name : String) (colon : Location)
    (value : ArgumentValue) (after : List Comment) (comma : Location) (args : Grammar.Arguments) :
    (Arguments.more (.mk before place name colon value after) comma args).withoutBefore.tokens ++ rest =
      place.token (.ident name) :: colon.token .colon ::
        (value.tokens ++ (commentTokens after ++ comma.token .comma :: (args.tokens ++ rest))) := by
  simp only [Arguments.withoutBefore, Arguments.tokens, Argument.tokens, commentTokens, List.map_nil,
    List.nil_append, List.cons_append, List.append_assoc]

/-- No parenthesis stands where an argument starts. -/
theorem withoutBefore_ne_rparen (args : Grammar.Arguments) (rparen : Location) :
    rparen.token .rparen :: rest ≠ args.withoutBefore.tokens ++ rest' := by
  cases args with
  | last arg rparen' | more arg comma args =>
    obtain ⟨before, place, name, colon, value, after⟩ := arg
    intro h
    have hkind := congrArg (fun tokens => tokens.head?.map Token.kind) h
    cases hkind

/-- A tag is told by its name and by what does not stand behind it, up to its block. -/
theorem tag_tokens_eq {place : Location} {name : String} {mods : List TagModifier} {block : Option Block}
    {item : Item} (hrest : NameEnds rest) (hrest' : NameEnds rest')
    (h : (Item.tag place name mods block).tokens ++ rest = item.tokens ++ rest') :
    ∃ block', item = .tag place name mods block' ∧
      block.elim [] Block.tokens ++ rest = block'.elim [] Block.tokens ++ rest' := by
  rw [tag_tokens_append] at h
  cases item with
  | tag place' name' mods' block' =>
    rw [tag_tokens_append, List.cons.injEq, token_inj, TokenKind.ident.injEq] at h
    obtain ⟨⟨rfl, rfl⟩, h⟩ := h
    obtain ⟨rfl, hmore⟩ :=
      modifiers_append_inj (behindTag_noModifier block hrest) (behindTag_noModifier block' hrest') h
    exact ⟨block', rfl, hmore⟩
  | emptyCall place' name' lparen comments rparen =>
    rw [emptyCall_tokens_append] at h
    exact absurd (congrArg (·.head?.map Token.kind) (List.cons.inj h).2) (behindTag_ne_lparen mods block hrest)
  | call place' name' lparen comments args =>
    rw [call_tokens_append] at h
    exact absurd (congrArg (·.head?.map Token.kind) (List.cons.inj h).2) (behindTag_ne_lparen mods block hrest)
  | comment comment | literal place' segments | reference place' ref => cases h

theorem emptyCall_tokens_eq {place lparen rparen : Location} {name : String} {comments : List Comment}
    {item : Item} (hrest' : NameEnds rest')
    (h : (Item.emptyCall place name lparen comments rparen).tokens ++ rest = item.tokens ++ rest') :
    item = .emptyCall place name lparen comments rparen ∧ rest = rest' := by
  cases item with
  | tag place' name' mods block =>
    rw [emptyCall_tokens_append, tag_tokens_append] at h
    exact absurd (congrArg (·.head?.map Token.kind) (List.cons.inj h).2.symm) (behindTag_ne_lparen mods block hrest')
  | emptyCall place' name' lparen' comments' rparen' =>
    simp only [emptyCall_tokens_append, List.cons.injEq, token_inj, TokenKind.ident.injEq, and_true] at h
    obtain ⟨⟨rfl, rfl⟩, rfl, h⟩ := h
    obtain ⟨rfl, hmore⟩ := commentTokens_append_inj (noComment_rparen rparen rest) (noComment_rparen rparen' rest') h
    obtain ⟨rfl, -, rfl⟩ := token_cons_inj.mp hmore
    exact ⟨rfl, rfl⟩
  | call place' name' lparen' comments' args =>
    simp only [emptyCall_tokens_append, call_tokens_append, List.cons.injEq, token_inj, TokenKind.ident.injEq,
      and_true] at h
    obtain ⟨-, -, h⟩ := h
    obtain ⟨-, h⟩ := commentTokens_append_inj (noComment_rparen rparen rest) (noComment_withoutBefore args rest') h
    exact absurd h (withoutBefore_ne_rparen args rparen)
  | comment comment | literal place' segments | reference place' ref => cases h

/-- A call with arguments is told up to them, and but for which comments are its own. -/
theorem call_tokens_eq {place lparen : Location} {name : String} {comments : List Comment}
    {args : Grammar.Arguments} {item : Item} (hrest' : NameEnds rest')
    (h : (Item.call place name lparen comments args).tokens ++ rest = item.tokens ++ rest') :
    ∃ comments' args', item = .call place name lparen comments' args' ∧
      comments ++ args.before = comments' ++ args'.before ∧
      args.withoutBefore.tokens ++ rest = args'.withoutBefore.tokens ++ rest' := by
  rw [call_tokens_append] at h
  cases item with
  | tag place' name' mods block =>
    rw [tag_tokens_append] at h
    exact absurd (congrArg (·.head?.map Token.kind) (List.cons.inj h).2.symm) (behindTag_ne_lparen mods block hrest')
  | emptyCall place' name' lparen' comments' rparen =>
    simp only [emptyCall_tokens_append, List.cons.injEq, token_inj, TokenKind.ident.injEq, and_true] at h
    obtain ⟨-, -, h⟩ := h
    obtain ⟨-, h⟩ := commentTokens_append_inj (noComment_withoutBefore args rest) (noComment_rparen rparen rest') h
    exact absurd h.symm (withoutBefore_ne_rparen args rparen)
  | call place' name' lparen' comments' args' =>
    simp only [call_tokens_append, List.cons.injEq, token_inj, TokenKind.ident.injEq, and_true] at h
    obtain ⟨⟨rfl, rfl⟩, rfl, h⟩ := h
    -- Only all the comments up to the first name are known, not which of them belong to the call.
    obtain ⟨hcomments, h⟩ :=
      commentTokens_append_inj (noComment_withoutBefore args rest) (noComment_withoutBefore args' rest') h
    exact ⟨comments', args', rfl, hcomments, h⟩
  | comment comment | literal place' segments | reference place' ref => cases h

/-- No item starts with a closing brace. -/
theorem rbrace_ne_tokens (item : Item) (rbrace : Location) : rbrace.token .rbrace :: rest ≠ item.tokens ++ rest' := by
  cases item with
  | tag place name mods block =>
    rw [tag_tokens_append]
    exact nofun
  | _ => exact nofun

mutual

theorem Item.settle_eq : ∀ (item item' : Item) {rest rest' : List Token}, NameEnds rest → NameEnds rest' →
    item.tokens ++ rest = item'.tokens ++ rest' → item.settle = item'.settle ∧ rest = rest'
  | .comment comment, item', rest, rest', _, _, h => by
    cases item' with
    | comment comment' =>
      obtain ⟨hcomment, rfl⟩ := List.cons.inj h
      rw [Comment.token_injective hcomment]
      exact ⟨rfl, rfl⟩
    | tag place name mods block => cases block <;> cases h
    | _ => cases h
  | .literal place segments, item', rest, rest', _, _, h => by
    cases item' with
    | literal place' segments' =>
      obtain ⟨rfl, hkind, rfl⟩ := token_cons_inj.mp h
      cases hkind
      exact ⟨rfl, rfl⟩
    | tag place name mods block => cases block <;> cases h
    | _ => cases h
  | .reference place ref, item', rest, rest', _, _, h => by
    cases item' with
    | reference place' ref' =>
      obtain ⟨rfl, hkind, rfl⟩ := token_cons_inj.mp h
      cases hkind
      exact ⟨rfl, rfl⟩
    | tag place name mods block => cases block <;> cases h
    | _ => cases h
  | .tag place name mods none, item', rest, rest', hrest, hrest', h => by
    obtain ⟨block', rfl, hmore⟩ := tag_tokens_eq hrest hrest' h
    cases block' with
    | none => exact ⟨rfl, hmore⟩
    | some block' =>
      -- A brace behind the tag would have to be its block.
      obtain ⟨lbrace, xs, rbrace⟩ := block'
      have hlbrace := congrArg (·.head?.map Token.kind) hmore
      exact Bool.noConfusion (hrest .lbrace hlbrace)
  | .tag place name mods (some block), item', rest, rest', hrest, hrest', h => by
    obtain ⟨block', rfl, hmore⟩ := tag_tokens_eq hrest hrest' h
    cases block' with
    | none =>
      obtain ⟨lbrace, xs, rbrace⟩ := block
      have hlbrace := congrArg (·.head?.map Token.kind) hmore.symm
      exact Bool.noConfusion (hrest' .lbrace hlbrace)
    | some block' =>
      obtain ⟨hblock, rfl⟩ := Block.settle_eq block block' hmore
      rw [Item.settle, Item.settle, hblock]
      exact ⟨rfl, rfl⟩
  | .emptyCall place name lparen comments rparen, item', rest, rest', _, hrest', h => by
    obtain ⟨rfl, rfl⟩ := emptyCall_tokens_eq hrest' h
    exact ⟨rfl, rfl⟩
  | .call place name lparen comments args, item', rest, rest', _, hrest', h => by
    obtain ⟨comments', args', rfl, hcomments, hmore⟩ := call_tokens_eq hrest' h
    obtain ⟨hargs, rfl⟩ := Arguments.settle_eq args args' hmore
    rw [Item.settle, Item.settle, hcomments, hargs]
    exact ⟨rfl, rfl⟩

theorem Item.settleAll_eq : ∀ (xs xs' : List Item) {rbrace rbrace' : Location} {rest rest' : List Token},
    Item.allTokens xs ++ rbrace.token .rbrace :: rest = Item.allTokens xs' ++ rbrace'.token .rbrace :: rest' →
    Item.settleAll xs = Item.settleAll xs' ∧ rbrace = rbrace' ∧ rest = rest'
  | [], [], rbrace, rbrace', rest, rest', h => by
    obtain ⟨rfl, -, rfl⟩ := token_cons_inj.mp h
    exact ⟨rfl, rfl, rfl⟩
  | [], x' :: xs', rbrace, rbrace', rest, rest', h => by
    rw [Item.allTokens, List.nil_append, Item.allTokens, List.append_assoc] at h
    exact absurd h (rbrace_ne_tokens x' rbrace)
  | x :: xs, [], rbrace, rbrace', rest, rest', h => by
    rw [Item.allTokens, Item.allTokens, List.nil_append, List.append_assoc] at h
    exact absurd h.symm (rbrace_ne_tokens x rbrace')
  | x :: xs, x' :: xs', rbrace, rbrace', rest, rest', h => by
    rw [Item.allTokens, Item.allTokens, List.append_assoc, List.append_assoc] at h
    obtain ⟨hx, hmore⟩ := Item.settle_eq x x' (nameEnds_allTokens xs rbrace rest)
      (nameEnds_allTokens xs' rbrace' rest') h
    obtain ⟨hxs, rfl, rfl⟩ := Item.settleAll_eq xs xs' hmore
    rw [Item.settleAll, Item.settleAll, hx, hxs]
    exact ⟨rfl, rfl, rfl⟩

theorem Block.settle_eq : ∀ (block block' : Block) {rest rest' : List Token},
    block.tokens ++ rest = block'.tokens ++ rest' → block.settle = block'.settle ∧ rest = rest'
  | .mk lbrace xs rbrace, .mk lbrace' xs' rbrace', rest, rest', h => by
    simp only [Block.tokens, List.cons_append, List.append_assoc, List.nil_append, List.cons.injEq, token_inj,
      and_true] at h
    obtain ⟨rfl, h⟩ := h
    obtain ⟨hxs, rfl, rfl⟩ := Item.settleAll_eq xs xs' h
    rw [Block.settle, Block.settle, hxs]
    exact ⟨rfl, rfl⟩

theorem Arguments.settle_eq : ∀ (args args' : Grammar.Arguments) {rest rest' : List Token},
    args.withoutBefore.tokens ++ rest = args'.withoutBefore.tokens ++ rest' →
    args.settle.withoutBefore = args'.settle.withoutBefore ∧ rest = rest'
  | .last (.mk _ place name colon value after) rparen, .last (.mk _ place' name' colon' value' after') rparen',
      rest, rest', h => by
    simp only [last_tokens_append, List.cons.injEq, token_inj, TokenKind.ident.injEq, and_true] at h
    obtain ⟨⟨rfl, rfl⟩, rfl, h⟩ := h
    obtain ⟨hvalue, hafter⟩ := ArgumentValue.settle_eq value value' h
    obtain ⟨rfl, hmore⟩ := commentTokens_append_inj (noComment_rparen _ _) (noComment_rparen _ _) hafter
    obtain ⟨rfl, -, rfl⟩ := token_cons_inj.mp hmore
    simp only [Arguments.settle, Argument.settle, Arguments.withoutBefore, hvalue, and_self]
  | .last (.mk _ place name colon value after) rparen, .more (.mk _ place' name' colon' value' after') comma args',
      rest, rest', h => by
    simp only [last_tokens_append, more_tokens_append, List.cons.injEq, token_inj, TokenKind.ident.injEq,
      and_true] at h
    obtain ⟨-, hafter⟩ := ArgumentValue.settle_eq value value' h.2.2
    obtain ⟨-, hmore⟩ := commentTokens_append_inj (noComment_rparen _ _) (noComment_comma _ _) hafter
    cases hmore
  | .more (.mk _ place name colon value after) comma args, .last (.mk _ place' name' colon' value' after') rparen',
      rest, rest', h => by
    simp only [last_tokens_append, more_tokens_append, List.cons.injEq, token_inj, TokenKind.ident.injEq,
      and_true] at h
    obtain ⟨-, hafter⟩ := ArgumentValue.settle_eq value value' h.2.2
    obtain ⟨-, hmore⟩ := commentTokens_append_inj (noComment_comma _ _) (noComment_rparen _ _) hafter
    cases hmore
  | .more (.mk _ place name colon value after) comma args, .more (.mk _ place' name' colon' value' after') comma' args',
      rest, rest', h => by
    simp only [more_tokens_append, List.cons.injEq, token_inj, TokenKind.ident.injEq, and_true] at h
    obtain ⟨⟨rfl, rfl⟩, rfl, h⟩ := h
    obtain ⟨hvalue, hafter⟩ := ArgumentValue.settle_eq value value' h
    obtain ⟨rfl, hmore⟩ := commentTokens_append_inj (noComment_comma _ _) (noComment_comma _ _) hafter
    obtain ⟨rfl, -, hargs⟩ := token_cons_inj.mp hmore
    -- Behind a comma the comments belong to the argument, so that they are known as well.
    rw [tokens_withoutBefore args, tokens_withoutBefore args', List.append_assoc, List.append_assoc] at hargs
    obtain ⟨hbefore, hargs⟩ :=
      commentTokens_append_inj (noComment_withoutBefore args rest) (noComment_withoutBefore args' rest') hargs
    obtain ⟨hwithout, rfl⟩ := Arguments.settle_eq args args' hargs
    have hsettle : args.settle = args'.settle :=
      Arguments.eq_of_withoutBefore (by rw [Arguments.before_settle, Arguments.before_settle, hbefore]) hwithout
    simp only [Arguments.settle, Argument.settle, Arguments.withoutBefore, hvalue, hsettle, and_self]

theorem ArgumentValue.settle_eq : ∀ (value value' : ArgumentValue) {rest rest' : List Token},
    value.tokens ++ rest = value'.tokens ++ rest' → value.settle = value'.settle ∧ rest = rest'
  | .reference place ref, value', rest, rest', h => by
    cases value' with
    | reference place' ref' =>
      obtain ⟨rfl, hkind, rfl⟩ := token_cons_inj.mp h
      cases hkind
      exact ⟨rfl, rfl⟩
    | block block =>
      obtain ⟨lbrace, xs, rbrace⟩ := block
      cases h
    | _ => cases h
  | .quote place text, value', rest, rest', h => by
    cases value' with
    | quote place' text' =>
      obtain ⟨rfl, hkind, rfl⟩ := token_cons_inj.mp h
      cases hkind
      exact ⟨rfl, rfl⟩
    | block block =>
      obtain ⟨lbrace, xs, rbrace⟩ := block
      cases h
    | _ => cases h
  | .literal place segments, value', rest, rest', h => by
    cases value' with
    | literal place' segments' =>
      obtain ⟨rfl, hkind, rfl⟩ := token_cons_inj.mp h
      cases hkind
      exact ⟨rfl, rfl⟩
    | block block =>
      obtain ⟨lbrace, xs, rbrace⟩ := block
      cases h
    | _ => cases h
  | .block block, value', rest, rest', h => by
    cases value' with
    | block block' =>
      obtain ⟨hblock, rfl⟩ := Block.settle_eq block block' h
      rw [ArgumentValue.settle, ArgumentValue.settle, hblock]
      exact ⟨rfl, rfl⟩
    | _ =>
      obtain ⟨lbrace, xs, rbrace⟩ := block
      cases h

end

/-! ## What settling keeps -/

mutual

theorem Item.tokens_settle : ∀ item : Item, item.settle.tokens = item.tokens
  | .comment _ | .literal _ _ | .reference _ _ | .tag _ _ _ none | .emptyCall _ _ _ _ _ => rfl
  | .tag _ _ _ (some block) => by rw [Item.settle, Item.tokens, Item.tokens, Block.tokens_settle block]
  | .call _ _ _ comments args => by
    rw [Item.settle, Item.tokens, Item.tokens, ← Arguments.tokens_settle args, tokens_withoutBefore args.settle,
      Arguments.before_settle, commentTokens, List.map_append]
    simp only [commentTokens, List.cons_append, List.append_assoc]

theorem Item.allTokens_settleAll : ∀ items : List Item, Item.allTokens (Item.settleAll items) = Item.allTokens items
  | [] => rfl
  | item :: items => by
    rw [Item.settleAll, Item.allTokens, Item.allTokens, Item.tokens_settle item, Item.allTokens_settleAll items]

theorem Block.tokens_settle : ∀ block : Block, block.settle.tokens = block.tokens
  | .mk _ items _ => by rw [Block.settle, Block.tokens, Block.tokens, Item.allTokens_settleAll items]

theorem Arguments.tokens_settle : ∀ args : Grammar.Arguments, args.settle.tokens = args.tokens
  | .last arg _ => by rw [Arguments.settle, Arguments.tokens, Arguments.tokens, Argument.tokens_settle arg]
  | .more arg _ args => by
    rw [Arguments.settle, Arguments.tokens, Arguments.tokens, Argument.tokens_settle arg,
      Arguments.tokens_settle args]

theorem Argument.tokens_settle : ∀ arg : Argument, arg.settle.tokens = arg.tokens
  | .mk _ _ _ _ value _ => by
    rw [Argument.settle, Argument.tokens, Argument.tokens, ArgumentValue.tokens_settle value]

theorem ArgumentValue.tokens_settle : ∀ value : ArgumentValue, value.settle.tokens = value.tokens
  | .reference _ _ | .quote _ _ | .literal _ _ => rfl
  | .block block => by rw [ArgumentValue.settle, ArgumentValue.tokens, ArgumentValue.tokens, Block.tokens_settle block]

end

end Grammar

end HtmlTemplate
