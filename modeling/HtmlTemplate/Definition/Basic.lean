import HtmlTemplate.Tree.Basic

/-!
# Definitions

A source is a sequence of template definitions. Reading one off a token list either succeeds or fails at a
token, or at the end of a list that stops too early.

## Contents

* `Definition` — a named template;
* `SyntaxFault`, `SyntaxError`, `SyntaxError.message` — what can be wrong with a sequence of tokens.
-/

namespace HtmlTemplate

/-- A template as it stands in a source: its name, the place of the keyword, and its tree. -/
structure Definition where
  name : String
  location : Location
  body : Node
deriving DecidableEq, Inhabited

/-- What is wrong about a token. -/
inductive SyntaxFault where
  | unexpectedToken
  | expectedDefinition
  | expectedIdentifier
  | expectedClosingBrace
  | expectedClosingBracket
  | expectedClosingParen
  | missingArgumentName
  | missingArgumentValue
deriving DecidableEq, Inhabited

/-- What can be wrong with a sequence of tokens. -/
inductive SyntaxError where
  /-- This token must not stand where it does. -/
  | fault (cause : SyntaxFault) (token : Token)
  /-- The tokens of the source with this number end inside a definition. -/
  | endOfTokens (file : Nat)
deriving DecidableEq, Inhabited

/-- The error as a sentence. -/
def SyntaxError.message : SyntaxError → String
  | .fault cause token =>
    let shown := "`" ++ token.describe ++ "`"
    match cause with
    | .unexpectedToken => "Unexpected token " ++ shown
    | .expectedDefinition => "Expected `def` but got " ++ shown
    | .expectedIdentifier => "Expected an identifier but got " ++ shown
    | .expectedClosingBrace => "Expected a closing brace `\x7d` but got " ++ shown ++ " delimiter"
    | .expectedClosingBracket => "Expected a closing bracket `]` but got " ++ shown ++ " delimiter"
    | .expectedClosingParen => "Expected a closing parenthesis `)` but got " ++ shown ++ " delimiter"
    | .missingArgumentName => "Missing argument name before " ++ shown
    | .missingArgumentValue => "Missing argument value before " ++ shown
  | .endOfTokens _ => "Unexpected EOF detected"

end HtmlTemplate
