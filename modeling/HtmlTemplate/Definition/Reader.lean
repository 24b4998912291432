import HtmlTemplate.Definition.Basic

/-!
# Reading from a list of tokens

A reader takes tokens off the front of a list and answers with a value or an error, and in either case with
the tokens that are left, so that reading can go on behind an error.

## Contents

* `Reading`, `TokenReader` — answers and readers, with sequencing as a monad;
* `TokenReader.next`, `peekKind`, `skipComments`, `expect`, `ident` — readers for single tokens.
-/

namespace HtmlTemplate

/-- The answer of a reader and the tokens it left. -/
inductive Reading (α : Type) where
  | ok (value : α) (rest : List Token)
  | error (error : SyntaxError) (rest : List Token)
deriving DecidableEq, Inhabited

namespace Reading

variable {α : Type}

/-- The tokens that are left. -/
def rest : Reading α → List Token
  | ok _ rest | error _ rest => rest

/-- The answer alone. -/
def toExcept : Reading α → Except SyntaxError α
  | ok value _ => .ok value
  | error e _ => .error e

end Reading

/-- A reader of `α` from a list of tokens. -/
def TokenReader (α : Type) : Type := List Token → Reading α

namespace TokenReader

variable {α β : Type}

/-- Reads with `reader`, then goes on with what `next` makes of the value. The first error stops it. -/
def andThen (reader : TokenReader α) (next : α → TokenReader β) : TokenReader β := fun tokens =>
  match reader tokens with
  | .ok value rest => next value rest
  | .error error rest => .error error rest

instance : Monad TokenReader where
  pure value := fun tokens => .ok value tokens
  bind := andThen

@[simp] theorem pure_apply (value : α) (tokens : List Token) :
    (pure value : TokenReader α) tokens = .ok value tokens := rfl

theorem bind_apply (reader : TokenReader α) (next : α → TokenReader β) (tokens : List Token) :
    (reader >>= next) tokens =
      match reader tokens with
      | .ok value rest => next value rest
      | .error error rest => .error error rest := rfl

/-- Fails without taking a token. -/
def fail (error : SyntaxError) : TokenReader α := fun tokens => .error error tokens

/-- Takes the next token. At the end of the list the source `file` is to blame. -/
def next (file : Nat) : TokenReader Token
  | [] => .error (.endOfTokens file) []
  | token :: tokens => .ok token tokens

/-- Looks at the next token without taking it. -/
def peekKind : TokenReader (Option (TokenKind Range)) := fun tokens =>
  .ok (tokens.head?.map Token.kind) tokens

/-- Takes all comments that come next. -/
def skipComments : TokenReader Unit
  | [] => .ok () []
  | token :: tokens =>
    match token.kind with
    | .comment _ => skipComments tokens
    | _ => .ok () (token :: tokens)

/-- Takes the next token, which has to be `kind`. -/
def expect (file : Nat) (kind : TokenKind Range) (cause : SyntaxFault) : TokenReader Token := do
  let token ← next file
  if token.kind = kind then return token else fail (.fault cause token)

/-- Takes the next token, which has to be an identifier, and answers its name. -/
def ident (file : Nat) : TokenReader String := do
  let token ← next file
  match token.kind with
  | .ident name => return name
  | _ => fail (.fault .expectedIdentifier token)

end TokenReader

end HtmlTemplate
