import HtmlTemplate.Definition.Reader
import HtmlTemplate.Tree.Tag

/-!
# Definitions of a token list

The grammar, with `*` for repetition and `?` for an optional part:

* Source: (Comment | Definition)* Eof
* Definition: `def` Ident Block
* Block: `{` (Comment | Literal | Reference | Tag | Call)* `}`
* Tag: Ident (`#` Value | `.` Value | `[` Ident `=` (Quote | Reference) `]`)* Block?
* Value: Ident | Reference
* Call: Ident `(` Comment* (`)` | Argument (`,` Argument)* `)`)
* Argument: Comment* Ident `:` (Reference | Quote | Literal | Block) Comment*

One token decides how to go on. The readers that can call each other take a bound on the number of tokens
that are left; when it is zero there is none, so the bound is never missed.

## Contents

* `CallScope` — what is known about the templates that can be called;
* `items`, `arguments`, `tag`, `call` — the readers behind an opening brace or name;
* `nextDefinition` — the next definition of a token list;
* `definitions` — all of them.
-/

namespace HtmlTemplate

/-- What a definition is read against: the number of its source, and the names that are internal
    templates. -/
structure CallScope where
  file : Nat
  isInternal : String → Bool

/-- The table in which a call of `name` finds its target. -/
def CallScope.binding (scope : CallScope) (name : String) : Binding :=
  if scope.isInternal name then .internal else .external

/-- The tree of a literal. A literal of one segment is that segment. -/
def Node.ofLiteral (token : Token) (segments : List (Segment × Range)) : Node :=
  let nodes := segments.map fun
    | (.text text, range) => Node.literal ⟨token.file, range⟩ text
    | (.reference ref, range) => Node.ofReference ⟨token.file, range⟩ ref
  match nodes with
  | [] => .literal token.location ""
  | [node] => node
  | nodes => .body token.location nodes

namespace Definition

open TokenReader

/-! ## Tags -/

/-- Reads the value of an id or a class. -/
def selectorValue (file : Nat) : TokenReader Node := do
  let token ← next file
  match token.kind with
  | .ident name => return .literal token.location name
  | .reference ref => return .ofReference token.location ref
  | _ => fail (.fault .expectedIdentifier token)

/-- Reads the value of an attribute. -/
def attrValue (file : Nat) : TokenReader Node := do
  let token ← next file
  match token.kind with
  | .quote text => return .literal token.location text
  | .reference ref => return .ofReference token.location ref
  | _ => fail (.fault .unexpectedToken token)

/-- Reads an attribute behind its opening bracket. -/
def attr (file : Nat) : TokenReader Modifier := do
  let name ← ident file
  let _ ← expect file .equal .unexpectedToken
  let value ← attrValue file
  let _ ← expect file .rbracket .expectedClosingBracket
  return .attr name value

/-- Reads the modifiers of a tag, of which there is none if no token is left. -/
def modifiers (file : Nat) : (bound : Nat) → TokenReader (List Modifier)
  | 0 => return []
  | bound + 1 => do
    match ← peekKind with
    | some .hash => do
      let _ ← next file
      let value ← selectorValue file
      return .id value :: (← modifiers file bound)
    | some .dot => do
      let _ ← next file
      let value ← selectorValue file
      return .styleClass value :: (← modifiers file bound)
    | some .lbracket => do
      let _ ← next file
      let modifier ← attr file
      return modifier :: (← modifiers file bound)
    | _ => return []

/-- Reads a tag behind its name, `items` being the reader of a block behind its opening brace. -/
def tag (file bound : Nat) (items : TokenReader (List Node)) (token : Token) (name : String) :
    TokenReader Node := do
  let modifiers ← modifiers file bound
  match ← peekKind with
  | some .lbrace => do
    let brace ← next file
    let children ← items
    return .tag token.location name modifiers (some (.body brace.location children))
  | _ => return .tag token.location name modifiers none

/-! ## Blocks and calls -/

/-- Reads the value of a call argument. A reference that is not escaped is passed on as it is; anything
    else is rendered when the call is made. -/
def argumentValue (file : Nat) (items : TokenReader (List Node)) : TokenReader Node := do
  let token ← next file
  let deferred (body : Node) : Node := .deferred token.location body
  match token.kind with
  | .reference ref =>
    if ref.escape then
      return deferred (.ofReference token.location ref)
    else
      return .reference token.location .passed ref.path
  | .quote text => return deferred (.literal token.location text)
  | .literal segments => return deferred (.ofLiteral token segments)
  | .lbrace => do
    let children ← items
    return deferred (.body token.location children)
  | .comma | .rparen => fail (.fault .missingArgumentValue token)
  | .eof => fail (.fault .expectedClosingParen token)
  | _ => fail (.fault .unexpectedToken token)

/-- Reads the name of a call argument and its colon. -/
def argumentName (file : Nat) : TokenReader String := do
  let token ← next file
  match token.kind with
  | .ident name => do
    let colon ← next file
    match colon.kind with
    | .colon => return name
    | .eof => fail (.fault .expectedClosingParen colon)
    | _ => fail (.fault .unexpectedToken colon)
  | .eof => fail (.fault .expectedClosingParen token)
  | _ => fail (.fault .missingArgumentName token)

/-- Reads a call behind its name, `arguments` being the reader of one argument or more. -/
def call (scope : CallScope) (arguments : TokenReader (List (String × Node))) (token : Token)
    (name : String) : TokenReader Node := do
  let _ ← next scope.file
  skipComments
  let args ←
    match ← peekKind with
    | some .rparen => do
      let _ ← next scope.file
      pure []
    | _ => arguments
  return .call token.location (scope.binding name) name args

mutual

/-- Reads the items of a block and its closing brace. -/
def items (scope : CallScope) : (bound : Nat) → TokenReader (List Node)
  | 0 => fail (.endOfTokens scope.file)
  | bound + 1 => do
    let token ← next scope.file
    match token.kind with
    | .rbrace => return []
    | .eof => fail (.fault .expectedClosingBrace token)
    | .comment _ => items scope bound
    | .literal segments => return .ofLiteral token segments :: (← items scope bound)
    | .reference ref => return .ofReference token.location ref :: (← items scope bound)
    | .ident name => do
      -- A parenthesis behind the name makes it a call, anything else a tag.
      let node ←
        match ← peekKind with
        | some .lparen => call scope (arguments scope bound []) token name
        | _ => tag scope.file bound (items scope bound) token name
      return node :: (← items scope bound)
    | _ => fail (.fault .unexpectedToken token)

/-- Reads one call argument or more and the closing parenthesis, `args` being the ones read so far. -/
def arguments (scope : CallScope) :
    (bound : Nat) → List (String × Node) → TokenReader (List (String × Node))
  | 0, _ => fail (.endOfTokens scope.file)
  | bound + 1, args => do
    skipComments
    let name ← argumentName scope.file
    let value ← argumentValue scope.file (items scope bound)
    skipComments
    let token ← next scope.file
    match token.kind with
    | .comma => arguments scope bound (setArgument name value args)
    | .rparen => return setArgument name value args
    | _ => fail (.fault .expectedClosingParen token)

end

/-! ## Definitions -/

/-- Whether an identifier is the keyword in front of a definition, in letters of either case. -/
def isKeyword (name : String) : Bool := name.toLower = "def"

/-- Reads a definition behind its keyword. -/
def afterKeyword (scope : CallScope) (keyword : Token) : TokenReader Definition := fun tokens =>
  (do
    let name ← ident scope.file
    let brace ← expect scope.file .lbrace .unexpectedToken
    let children ← items scope tokens.length
    return ⟨name, keyword.location, .body brace.location children⟩ : TokenReader Definition) tokens

/-- Reads the next definition, if there is one in front of the end of the source. -/
def nextDefinition (scope : CallScope) : TokenReader (Option Definition)
  | [] => .ok none []
  | token :: tokens =>
    match token.kind with
    | .comment _ => nextDefinition scope tokens
    | .eof => .ok none tokens
    | .ident name =>
      if isKeyword name then
        (some <$> afterKeyword scope token) tokens
      else
        .error (.fault .expectedDefinition token) tokens
    | _ => .error (.fault .expectedDefinition token) tokens

/-- Reads definitions up to the end of the source, of which there is none if no token is left. -/
def allDefinitions (scope : CallScope) : (bound : Nat) → TokenReader (List Definition)
  | 0 => return []
  | bound + 1 => do
    match ← nextDefinition scope with
    | none => return []
    | some definition => return definition :: (← allDefinitions scope bound)

end Definition

/-- The definitions of a token list, all read against the same internal templates. -/
def definitions (scope : CallScope) (tokens : List Token) : Except SyntaxError (List Definition) :=
  (Definition.allDefinitions scope tokens.length tokens).toExcept

end HtmlTemplate
