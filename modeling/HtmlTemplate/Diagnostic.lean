import HtmlTemplate.Source.Collection
import HtmlTemplate.Token.Scan
import HtmlTemplate.Definition.Basic
import HtmlTemplate.Render.Error

/-!
# Diagnostics

An error together with what a user needs to find it: the name and the text of the source, a line and a
column, and the bytes to underline.

## Contents

* `Cause` — an error of any stage, with its `message`, `code` and `help`;
* `Cause.origin` — the source it points into, and the range there if it has one;
* `Diagnostic`, `Diagnostic.ofCause` — the cause placed in its source.
-/

namespace HtmlTemplate

/-- An error of scanning, of reading definitions, or of rendering. -/
inductive Cause where
  | scan (error : ScanError)
  | parse (error : SyntaxError)
  | render (error : RenderError)
deriving DecidableEq, Inhabited

namespace Cause

/-- The error as a sentence. -/
def message : Cause → String
  | scan e => e.message
  | parse e => e.message
  | render e => e.message

/-- The source is malformed. -/
def isSyntax : Cause → Bool
  | scan _ | parse _ => true
  | render _ => false

/-- A parameter or a template is missing, or a value has no text. -/
def isResolution : Cause → Bool
  | render _ => true
  | scan _ | parse _ => false

/-- The code by which users look the error up. -/
def code : Cause → String
  | scan (.fault (.unexpectedCharacter _) _) => "LexerError::UnexpectedCharacter"
  | scan (.fault .unterminatedComment _) => "LexerError::UnterminatedComment"
  | scan (.fault .unterminatedLiteral _) => "LexerError::UnterminatedLiteral"
  | scan (.fault .unterminatedQuote _) => "LexerError::UnterminatedQuote"
  | scan (.fault .invalidReference _) => "LexerError::InvalidReference"
  | scan (.endOfSource _) => "LexerError::UnexpectedEOFDetected"
  | parse (.fault .unexpectedToken _) => "ParseError::UnexpectedToken"
  | parse (.fault .expectedDefinition _) => "ParseError::ExpectedDef"
  | parse (.fault .expectedIdentifier _) => "ParseError::ExpectedIdentifier"
  | parse (.fault .expectedClosingBrace _) => "ParseError::ExpectedClosingBrace"
  | parse (.fault .expectedClosingBracket _) => "ParseError::ExpectedClosingBracket"
  | parse (.fault .expectedClosingParen _) => "ParseError::ExpectedClosingParen"
  | parse (.fault .missingArgumentName _) => "ParseError::MissingArgumentName"
  | parse (.fault .missingArgumentValue _) => "ParseError::MissingArgumentValue"
  | parse (.endOfTokens _) => "ParseError::UnexpectedEOFDetected"
  | render (.paramNotFound _ _ _) => "EvalError::ParamNotFound"
  | render (.notDefined _ _) => "EvalError::NotDefined"
  | render (.templateNotFound _) => "EvalError::TemplateNotFound"
  | render (.notRenderable _ _ _) => "EvalError::NotRenderable"

/-- How to mend the error, where there is something to say. -/
def help : Cause → Option String
  | scan (.fault .unterminatedComment _) => some "Comments nest; every `/*` needs its own `*/`."
  | scan (.fault .unterminatedLiteral _) =>
    some "Close the literal with `~`, or write `\\~` for a literal tilde."
  | scan (.fault .invalidReference _) =>
    some "Write `@name`, `@a.b` or `@(a.b)`; use `\\@` for a literal at sign."
  | parse (.fault .expectedDefinition _) =>
    some "Only `def name \x7b ... \x7d` blocks and comments may appear at the top level."
  | parse (.fault .missingArgumentName _) | parse (.fault .missingArgumentValue _) =>
    some "Call arguments are written as `name: value`."
  | parse (.fault .unexpectedToken _) => some "Check for syntax errors or misplaced tokens."
  | render (.paramNotFound _ segment _) =>
    some ("'" ++ segment ++ "' is not passed by the caller or the render parameters.")
  | render (.notDefined _ name) | render (.templateNotFound name) =>
    some ("'" ++ name ++ "' is not defined. Did you forget to compile or register it?")
  | render (.notRenderable _ _ _) => some "Reference a field of the value instead of the value itself."
  | _ => none

/-- The number of the source that the error points into, and the range there. An error at the end of a
    source has no range, and an unknown template no source. -/
def origin : Cause → Option (Nat × Option Range)
  | scan (.fault _ location) => some (location.file, some location.range)
  | scan (.endOfSource file) => some (file, none)
  | parse (.fault _ token) => some (token.file, some token.range)
  | parse (.endOfTokens file) => some (file, none)
  | render e => e.location.map fun location => (location.file, some location.range)

end Cause

/-- The bytes from `start` on, `length` of them. -/
structure Span where
  start : Nat
  length : Nat
deriving DecidableEq, Inhabited

/-- The bytes of a text that lie in a range, but at least one. -/
def Range.span (range : Range) (code : String) : Span :=
  let start := range.start.offset code
  ⟨start, max (range.stop.offset code - start) 1⟩

/-- An error in its source. -/
structure Diagnostic where
  cause : Cause
  /-- The name of the source, if the error has one. -/
  fileName : Option String
  /-- The text of the source. -/
  source : String
  /-- The bytes to underline. -/
  span : Span
  /-- Line and column of the failure. -/
  position : Option Position
deriving DecidableEq, Inhabited

namespace Diagnostic

/-- Places a cause in its source. -/
def ofCause (cause : Cause) (sources : Sources) : Diagnostic :=
  match cause.origin with
  | none => ⟨cause, none, "", ⟨0, 0⟩, none⟩
  | some (file, some range) =>
    let code := sources.code file
    ⟨cause, sources.name file, code, range.span code, range.start⟩
  | some (file, none) =>
    let code := sources.code file
    ⟨cause, sources.name file, code, ⟨code.utf8ByteSize, 0⟩, Position.pastLastLine code.toList⟩

@[simp] theorem cause_ofCause (cause : Cause) (sources : Sources) : (ofCause cause sources).cause = cause := by
  unfold ofCause
  split <;> rfl

/-- The error as a sentence. -/
def message (diagnostic : Diagnostic) : String := diagnostic.cause.message

/-- The underlined bytes and what is written below them. -/
def labels (diagnostic : Diagnostic) : List (String × Span) := [(diagnostic.message, diagnostic.span)]

end Diagnostic

end HtmlTemplate
