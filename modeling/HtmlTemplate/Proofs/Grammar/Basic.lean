import HtmlTemplate.Definition.OfTokens

/-!
# The grammar

The grammar of token lists, as data. A derivation of a phrase holds one part for each symbol of the rule it
was made by, and a place for each token; `tokens` reads its tokens off from left to right, and `node`,
`nodes` or `definition` tell the trees that it stands for. The rules are

* Source = (Comment | Def)* Eof
* Def = Ident(`def` in letters of either case) Ident Block, Block = `{` Item* `}`
* Item = Comment | Literal | Reference | Tag | Call
* Tag = Ident Mod* Block?
* Mod = `#` (Ident | Reference) | `.` (Ident | Reference) | `[` Ident `=` (Quote | Reference) `]`
* Call = Ident `(` Comment* ( `)` | Arg (`,` Arg)* `)` )
* Arg = Comment* Ident `:` (Reference | Quote | Literal | Block) Comment*

Comments behind the parenthesis of a call can be derived from the rule of the call or from that of its first
argument. They mean nothing in either place, and `settle` gives them to the call.

## Contents

* `Grammar.Comment`, `SelectorValue`, `AttrValue`, `TagModifier` — phrases without blocks;
* `Grammar.Item`, `Block`, `Arguments`, `Argument`, `ArgumentValue` — phrases that can hold blocks;
* `Grammar.Def`, `Part`, `Source` — definitions, and a whole source;
* `lastValues` — the arguments of a call, each name once;
* `Item.settle`, `Source.settle` — a derivation with all comments at their settled places.
-/

namespace HtmlTemplate

/-- The token of a kind at a place. -/
def Location.token (place : Location) (kind : TokenKind Range) : Token := ⟨kind, place.range, place.file⟩

@[simp] theorem Location.kind_token (place : Location) (kind : TokenKind Range) :
    (place.token kind).kind = kind := rfl

@[simp] theorem Location.location_token (place : Location) (kind : TokenKind Range) :
    (place.token kind).location = place := rfl

@[simp] theorem Token.token_location (token : Token) : token.location.token token.kind = token := rfl

/-- Each name once, where it comes first, with the value that it is given last. -/
def lastValues {α : Type} (args : List (String × α)) : List (String × α) :=
  (args.map Prod.fst).eraseDups.filterMap fun name => (args.reverse.lookup name).map (name, ·)

namespace Grammar

/-! ## Phrases without blocks -/

structure Comment where
  place : Location
  text : String

def Comment.token (comment : Comment) : Token := comment.place.token (.comment comment.text)

/-- The tokens of some comments. -/
def commentTokens (comments : List Comment) : List Token := comments.map Comment.token

inductive SelectorValue where
  | ident (place : Location) (name : String)
  | reference (place : Location) (ref : Reference)

def SelectorValue.token : SelectorValue → Token
  | ident place name => place.token (.ident name)
  | reference place ref => place.token (.reference ref)

def SelectorValue.node : SelectorValue → Node
  | ident place name => .literal place name
  | reference place ref => .ofReference place ref

inductive AttrValue where
  | quote (place : Location) (text : String)
  | reference (place : Location) (ref : Reference)

def AttrValue.token : AttrValue → Token
  | quote place text => place.token (.quote text)
  | reference place ref => place.token (.reference ref)

def AttrValue.node : AttrValue → Node
  | quote place text => .literal place text
  | reference place ref => .ofReference place ref

inductive TagModifier where
  | id (hash : Location) (value : SelectorValue)
  | styleClass (dot : Location) (value : SelectorValue)
  | attr (lbracket namePlace : Location) (name : String) (equal : Location) (value : AttrValue)
    (rbracket : Location)

def TagModifier.tokens : TagModifier → List Token
  | id hash value => [hash.token .hash, value.token]
  | styleClass dot value => [dot.token .dot, value.token]
  | attr lbracket namePlace name equal value rbracket =>
    [lbracket.token .lbracket, namePlace.token (.ident name), equal.token .equal, value.token,
      rbracket.token .rbracket]

/-- What the modifier says about its tag. -/
def TagModifier.modifier : TagModifier → Modifier
  | id _ value => .id value.node
  | styleClass _ value => .styleClass value.node
  | attr _ _ name _ value _ => .attr name value.node

/-! ## Phrases with blocks -/

mutual

inductive Item where
  | comment (comment : Comment)
  | literal (place : Location) (segments : List (Segment × Range))
  | reference (place : Location) (ref : Reference)
  | tag (place : Location) (name : String) (modifiers : List TagModifier) (block : Option Block)
  | emptyCall (place : Location) (name : String) (lparen : Location) (comments : List Comment)
    (rparen : Location)
  | call (place : Location) (name : String) (lparen : Location) (comments : List Comment)
    (args : Arguments)

inductive Block where
  | mk (lbrace : Location) (items : List Item) (rbrace : Location)

/-- One argument or more, and the closing parenthesis. -/
inductive Arguments where
  | last (arg : Argument) (rparen : Location)
  | more (arg : Argument) (comma : Location) (args : Arguments)

inductive Argument where
  | mk (before : List Comment) (place : Location) (name : String) (colon : Location)
    (value : ArgumentValue) (after : List Comment)

inductive ArgumentValue where
  | reference (place : Location) (ref : Reference)
  | quote (place : Location) (text : String)
  | literal (place : Location) (segments : List (Segment × Range))
  | block (block : Block)

end

/-! ### Tokens -/

mutual

def Item.tokens : Item → List Token
  | .comment comment => [comment.token]
  | .literal place segments => [place.token (.literal segments)]
  | .reference place ref => [place.token (.reference ref)]
  | .tag place name modifiers none => place.token (.ident name) :: modifiers.flatMap TagModifier.tokens
  | .tag place name modifiers (some block) =>
    place.token (.ident name) :: modifiers.flatMap TagModifier.tokens ++ block.tokens
  | .emptyCall place name lparen comments rparen =>
    place.token (.ident name) :: lparen.token .lparen :: commentTokens comments ++ [rparen.token .rparen]
  | .call place name lparen comments args =>
    place.token (.ident name) :: lparen.token .lparen :: commentTokens comments ++ args.tokens

def Item.allTokens : List Item → List Token
  | [] => []
  | item :: items => item.tokens ++ Item.allTokens items

def Block.tokens : Block → List Token
  | .mk lbrace items rbrace => lbrace.token .lbrace :: Item.allTokens items ++ [rbrace.token .rbrace]

def Arguments.tokens : Arguments → List Token
  | .last arg rparen => arg.tokens ++ [rparen.token .rparen]
  | .more arg comma args => arg.tokens ++ comma.token .comma :: args.tokens

def Argument.tokens : Argument → List Token
  | .mk before place name colon value after =>
    commentTokens before ++ place.token (.ident name) :: colon.token .colon :: value.tokens ++
      commentTokens after

def ArgumentValue.tokens : ArgumentValue → List Token
  | .reference place ref => [place.token (.reference ref)]
  | .quote place text => [place.token (.quote text)]
  | .literal place segments => [place.token (.literal segments)]
  | .block block => block.tokens

end

/-! ### Trees -/

mutual

/-- The node of an item; a comment has none. -/
def Item.nodes (scope : CallScope) : Item → List Node
  | .comment _ => []
  | .literal place segments => [.ofLiteral (place.token (.literal segments)) segments]
  | .reference place ref => [.ofReference place ref]
  | .tag place name modifiers none => [.tag place name (modifiers.map TagModifier.modifier) none]
  | .tag place name modifiers (some block) =>
    [.tag place name (modifiers.map TagModifier.modifier) (some (block.node scope))]
  | .emptyCall place name _ _ _ => [.call place (scope.binding name) name []]
  | .call place name _ _ args => [.call place (scope.binding name) name (lastValues (args.values scope))]

def Item.allNodes (scope : CallScope) : List Item → List Node
  | [] => []
  | item :: items => item.nodes scope ++ Item.allNodes scope items

def Block.node (scope : CallScope) : Block → Node
  | .mk lbrace items _ => .body lbrace (Item.allNodes scope items)

/-- The arguments in the order in which they are written. -/
def Arguments.values (scope : CallScope) : Arguments → List (String × Node)
  | .last arg _ => [arg.value scope]
  | .more arg _ args => arg.value scope :: args.values scope

def Argument.value (scope : CallScope) : Argument → String × Node
  | .mk _ _ name _ value _ => (name, value.node scope)

/-- A reference that is not escaped is passed; everything else is rendered for the call. -/
def ArgumentValue.node (scope : CallScope) : ArgumentValue → Node
  | .reference place ⟨path, false⟩ => .reference place .passed path
  | .reference place ⟨path, true⟩ => .deferred place (.reference place .escaped path)
  | .quote place text => .deferred place (.literal place text)
  | .literal place segments => .deferred place (.ofLiteral (place.token (.literal segments)) segments)
  | .block (.mk lbrace items _) => .deferred lbrace (.body lbrace (Item.allNodes scope items))

end

/-! ### Items one behind the other -/

theorem allTokens_append (xs ys : List Item) :
    Item.allTokens (xs ++ ys) = Item.allTokens xs ++ Item.allTokens ys := by
  induction xs with
  | nil => rfl
  | cons item xs ih => rw [List.cons_append, Item.allTokens, Item.allTokens, ih, List.append_assoc]

theorem allNodes_append (scope : CallScope) (xs ys : List Item) :
    Item.allNodes scope (xs ++ ys) = Item.allNodes scope xs ++ Item.allNodes scope ys := by
  induction xs with
  | nil => rfl
  | cons item xs ih => rw [List.cons_append, Item.allNodes, Item.allNodes, ih, List.append_assoc]

/-! ### Settling -/

/-- The comments in front of the first argument. -/
def Arguments.before : Arguments → List Comment
  | .last (.mk before _ _ _ _ _) _ | .more (.mk before _ _ _ _ _) _ _ => before

/-- The arguments without the comments in front of the first one. -/
def Arguments.withoutBefore : Arguments → Arguments
  | .last (.mk _ place name colon value after) rparen => .last (.mk [] place name colon value after) rparen
  | .more (.mk _ place name colon value after) comma args =>
    .more (.mk [] place name colon value after) comma args

mutual

/-- Gives the comments behind the parenthesis of each call to the call. -/
def Item.settle : Item → Item
  | .tag place name modifiers (some block) => .tag place name modifiers (some block.settle)
  | .call place name lparen comments args =>
    .call place name lparen (comments ++ args.before) args.settle.withoutBefore
  | item => item

def Item.settleAll : List Item → List Item
  | [] => []
  | item :: items => item.settle :: Item.settleAll items

def Block.settle : Block → Block
  | .mk lbrace items rbrace => .mk lbrace (Item.settleAll items) rbrace

def Arguments.settle : Arguments → Arguments
  | .last arg rparen => .last arg.settle rparen
  | .more arg comma args => .more arg.settle comma args.settle

def Argument.settle : Argument → Argument
  | .mk before place name colon value after => .mk before place name colon value.settle after

def ArgumentValue.settle : ArgumentValue → ArgumentValue
  | .block block => .block block.settle
  | value => value

end

/-! ## Definitions and sources -/

structure Def where
  place : Location
  keyword : String
  isKeyword : Definition.isKeyword keyword = true
  namePlace : Location
  name : String
  block : Block

namespace Def

def tokens (d : Def) : List Token :=
  d.place.token (.ident d.keyword) :: d.namePlace.token (.ident d.name) :: d.block.tokens

def definition (scope : CallScope) (d : Def) : Definition := ⟨d.name, d.place, d.block.node scope⟩

end Def

inductive Part where
  | comment (comment : Comment)
  | definition (d : Def)

namespace Part

def tokens : Part → List Token
  | comment c => [c.token]
  | definition d => d.tokens

/-- The definition that a part is, if it is one. -/
def def? : Part → Option Def
  | comment _ => none
  | definition d => some d

/-- Gives the comments behind the parenthesis of each call to the call. -/
def settle : Part → Part
  | comment c => comment c
  | definition d => definition { d with block := d.block.settle }

end Part

structure Source where
  parts : List Part
  eof : Location

namespace Source

def tokens (source : Source) : List Token :=
  source.parts.flatMap Part.tokens ++ [source.eof.token .eof]

def definitions (scope : CallScope) (source : Source) : List Definition :=
  (source.parts.filterMap Part.def?).map (Def.definition scope)

/-- Gives the comments behind the parenthesis of each call to the call. -/
def settle (source : Source) : Source := { source with parts := source.parts.map Part.settle }

end Source

end Grammar

end HtmlTemplate
