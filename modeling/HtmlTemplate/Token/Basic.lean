import HtmlTemplate.Source.Position

/-!
# Tokens

The vocabulary of the template language: punctuation, identifiers, quotes, comments, literals and
parameter references. What a token says (`TokenKind`) is kept apart from where it stands (`Token`).

## Contents

* `Path`, `Reference`, `Segment` — parameter references and the parts of a literal;
* `TokenKind` — what a token says, its literal segments marked with any kind of place;
* `Token` — a token in a numbered source;
* `TokenKind.display`, `Token.display` — the text a token is shown as;
* `TokenKind.map` — the same token with its segments marked differently.
-/

namespace HtmlTemplate

/-- A dotted parameter path such as `user.name`, segment by segment. -/
abbrev Path := List String

/-- The segments of a path joined by dots. -/
def Path.display (path : Path) : String := ".".intercalate path

/-- A reference to a parameter. The text of an escaped one has its HTML delimiters replaced. -/
structure Reference where
  path : Path
  escape : Bool
deriving DecidableEq, Inhabited

/-- A reference in its parenthesised form. -/
def Reference.display (reference : Reference) : String :=
  (if reference.escape then "@~(" else "@(") ++ Path.display reference.path ++ ")"

/-- One part of a literal. -/
inductive Segment where
  | text (text : String)
  | reference (reference : Reference)
deriving DecidableEq, Inhabited

/-- The text of a text segment, and the display of a reference. -/
def Segment.display : Segment → String
  | .text content => content
  | .reference ref => ref.display

/-- What a token says. Each segment of a literal is marked with an `α` that tells its place. -/
inductive TokenKind (α : Type) where
  | colon
  | comma
  | comment (text : String)
  | dot
  | eof
  | equal
  | hash
  | ident (name : String)
  | lbrace
  | lbracket
  | lparen
  | literal (segments : List (Segment × α))
  | quote (text : String)
  | rbrace
  | rbracket
  | reference (reference : Reference)
  | rparen
deriving DecidableEq, Inhabited

namespace TokenKind

variable {α β : Type}

/-- The same token with its segments marked by `f`. -/
def map (f : α → β) : TokenKind α → TokenKind β
  | colon => colon
  | comma => comma
  | comment text => comment text
  | dot => dot
  | eof => eof
  | equal => equal
  | hash => hash
  | ident name => ident name
  | lbrace => lbrace
  | lbracket => lbracket
  | lparen => lparen
  | literal segments => literal (segments.map fun segment => (segment.1, f segment.2))
  | quote text => quote text
  | rbrace => rbrace
  | rbracket => rbracket
  | reference ref => reference ref
  | rparen => rparen

/-- The token as text. The content of comments, quotes and literals is shown as it is, without the
    backslashes it may have been written with. -/
def display : TokenKind α → String
  | colon => ":"
  | comma => ","
  | comment text => "/*" ++ text ++ "*/"
  | dot => "."
  | eof => ""
  | equal => "="
  | hash => "#"
  | ident name => name
  | lbrace => "\x7b"
  | lbracket => "["
  | lparen => "("
  | literal segments => "~" ++ String.join (segments.map fun segment => segment.1.display) ++ "~"
  | quote text => "\"" ++ text ++ "\""
  | rbrace => "\x7d"
  | rbracket => "]"
  | reference ref => ref.display
  | rparen => ")"

/-- How the token is shown does not depend on where its segments stand. -/
@[simp] theorem display_map (f : α → β) (kind : TokenKind α) : (kind.map f).display = kind.display := by
  cases kind <;> simp [map, display, Function.comp_def]

end TokenKind

/-- A token of source number `file`, with the range of each literal segment. -/
structure Token where
  kind : TokenKind Range
  range : Range
  file : Nat
deriving DecidableEq, Inhabited

namespace Token

/-- Where the token stands. -/
def location (token : Token) : Location := ⟨token.file, token.range⟩

/-- The token as text. -/
def display (token : Token) : String := token.kind.display

/-- The token as text, or `EOF` for the end of the source, which has none. -/
def describe (token : Token) : String :=
  match token.kind with
  | .eof => "EOF"
  | kind => kind.display

end Token

end HtmlTemplate
