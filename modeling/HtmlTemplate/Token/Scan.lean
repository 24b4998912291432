import HtmlTemplate.Token.Lexeme

/-!
# Tokens of a source

Lexemes laid out one behind the other give tokens with lines and columns. A source whose reading stops at
a fault still gives the tokens in front of it, but then without the closing `eof` token.

## Contents

* `ScanError` — a fault and its place in a source;
* `Scan`, `scan` — the tokens of a source, and the fault that ended them if there was one;
* `tokenize` — the tokens of a source that has no fault.
-/

namespace HtmlTemplate

/-- What can be wrong with a source as a sequence of tokens. -/
inductive ScanError where
  /-- The text at this place starts no token. -/
  | fault (cause : ScanFault) (location : Location)
  /-- The source with this number ends where a token has to follow. -/
  | endOfSource (file : Nat)
deriving DecidableEq, Inhabited

/-- The error as a sentence. -/
def ScanError.message : ScanError → String
  | .fault (.unexpectedCharacter c) _ => "Unexpected character `" ++ String.singleton c ++ "`"
  | .fault .unterminatedComment _ => "Unterminated comment, expected a closing `*/`"
  | .fault .unterminatedLiteral _ => "Unterminated literal, expected a closing `~`"
  | .fault .unterminatedQuote _ => "Unterminated quote, expected a closing `\"`"
  | .fault .invalidReference _ => "Expected a parameter path after `@`"
  | .endOfSource _ => "Unexpected EOF detected"

/-- The ranges of parts that lie one behind the other, the first one at `start`. -/
def layOut {α : Type} : Position → List (α × List Char) → List (α × Range)
  | _, [] => []
  | start, (part, text) :: parts =>
    (part, ⟨start, start.after text⟩) :: layOut (start.after text) parts

/-- What a lexeme at `start` says, with the places of its segments. -/
def TokenKind.layOut (start : Position) : TokenKind (List Char) → TokenKind Range
  | .literal segments => .literal (HtmlTemplate.layOut (start.after ['~']) segments)
  | kind => kind.map fun _ => ⟨start, start⟩

/-- The position behind some lexemes and their blanks, the first one standing at `start`. -/
def Lexeme.behind (start : Position) (lexemes : List Lexeme) : Position :=
  lexemes.foldl (fun position lexeme => (position.after lexeme.text).after lexeme.blank) start

/-- The tokens of lexemes that lie one behind the other, the first one at `start`. -/
def Lexeme.tokens (file : Nat) : Position → List Lexeme → List Token
  | _, [] => []
  | start, lexeme :: lexemes =>
    let stop := start.after lexeme.text
    ⟨lexeme.kind.layOut start, ⟨start, stop⟩, file⟩ ::
      tokens file (stop.after lexeme.blank) lexemes

/-- The tokens of a source in order, and the fault that ended them. -/
structure Scan where
  tokens : List Token
  error : Option ScanError
deriving DecidableEq

/-- Reads the text of source number `file` as tokens. -/
def scan (code : String) (file : Nat) : Scan :=
  let start := Position.first.after (code.toList.takeWhile Lexeme.isBlank)
  let found := lexemes (code.toList.dropWhile Lexeme.isBlank)
  let tokens := Lexeme.tokens file start found.1
  let behind := Lexeme.behind start found.1
  match found.2 with
  | none => ⟨tokens ++ [⟨.eof, ⟨behind, behind⟩, file⟩], none⟩
  | some fault => ⟨tokens, some (.fault fault.cause ⟨file, (behind.after fault.skipped).oneColumn⟩)⟩

/-- The tokens of a source, or the fault that it has. -/
def tokenize (code : String) (file : Nat) : Except ScanError (List Token) :=
  match (scan code file).error with
  | none => .ok (scan code file).tokens
  | some error => .error error

end HtmlTemplate
