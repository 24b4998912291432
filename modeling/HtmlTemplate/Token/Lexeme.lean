import HtmlTemplate.Token.Piece

/-!
# Lexemes

Splitting a text into the words of the template language, without regard to lines and columns. A lexeme
keeps the characters it was read from and the blank that follows it, so nothing of the text is lost.

## Contents

* `ScanFault`, `Fault` — why a text cannot be read, and how far into the construct the trouble stands;
* `literalBody` — the reader for literals, which hold text and references;
* `lexeme` — the reader for any one token;
* `Lexeme`, `lexemes` — a whole text.

The characters of a token are the front of the text it was read from (`literalBody_readFrom`,
`lexeme_readFrom`).
-/

namespace HtmlTemplate

/-- Why a text cannot be read as tokens. -/
inductive ScanFault where
  | unexpectedCharacter (c : Char)
  | unterminatedComment
  | unterminatedLiteral
  | unterminatedQuote
  | invalidReference
deriving DecidableEq, Inhabited

/-- A fault together with the characters of the construct that lie in front of the place to blame. -/
structure Fault where
  cause : ScanFault
  skipped : List Char
deriving DecidableEq

/-- The same fault seen from the start of a construct, `read` being the characters in between. A missing
    delimiter is blamed on the start of the construct as a whole and stays there. -/
def Fault.behind (read : List Char) (fault : Fault) : Fault :=
  match fault.cause with
  | .invalidReference => { fault with skipped := read ++ fault.skipped }
  | _ => fault

namespace Lexeme

/-! ## Literals -/

/-- The characters that end a run of text in a literal. -/
def endsLiteralText (c : Char) : Bool := c = '~' || c = '@'

/-- The segments of a run of text: none if the run is empty. -/
def textSegments (value text : List Char) : List (Segment × List Char) :=
  if value = [] then [] else [(.text (String.ofList value), text)]

/-- Reads the segments of a literal and its closing tilde. -/
def literalBody (cs : List Char) : Except Fault (Piece (List (Segment × List Char))) :=
  match _h : escapedRun endsLiteralText cs with
  | ⟨value, text, '~' :: rest⟩ => .ok ⟨textSegments value text, text ++ ['~'], rest⟩
  | ⟨value, text, '@' :: cs'⟩ =>
    match _hr : reference cs' with
    | none => .error ⟨.invalidReference, text⟩
    | some ref =>
      match literalBody ref.rest with
      | .error fault => .error (fault.behind (text ++ '@' :: ref.text))
      | .ok tail =>
        .ok ⟨textSegments value text ++ (.reference ref.value, '@' :: ref.text) :: tail.value,
          text ++ '@' :: ref.text ++ tail.text, tail.rest⟩
  | _ => .error ⟨.unterminatedLiteral, []⟩
termination_by cs.length
decreasing_by
  have := (reference_readFrom _hr).length
  have := congrArg List.length (escapedRun_append endsLiteralText cs)
  simp only [_h, List.length_append, List.length_cons] at this
  omega

theorem literalBody_readFrom {cs : List Char} {piece : Piece (List (Segment × List Char))}
    (h : literalBody cs = .ok piece) : piece.ReadFrom cs := by
  fun_induction literalBody cs generalizing piece with
  | case1 cs value text rest hr =>
    cases h
    have := escapedRun_append endsLiteralText cs
    exact ⟨by simpa [hr] using this, by simp⟩
  | case2 | case3 | case5 => cases h
  | case4 cs value text cs' hr ref href tail ht ih =>
    cases h
    have := escapedRun_append endsLiteralText cs
    exact ⟨by simpa [hr, (ih ht).append, (reference_readFrom href).append] using this, by simp⟩

/-! ## Any token -/

/-- The tokens that consist of one character. -/
def punctuation {α : Type} : Char → Option (TokenKind α)
  | '{' => some .lbrace
  | '}' => some .rbrace
  | '(' => some .lparen
  | ')' => some .rparen
  | '[' => some .lbracket
  | ']' => some .rbracket
  | '#' => some .hash
  | '.' => some .dot
  | '=' => some .equal
  | ':' => some .colon
  | ',' => some .comma
  | _ => none

/-- Reads a quote behind its opening delimiter. -/
def quoteBody (cs : List Char) : Option (Piece (List Char)) :=
  match escapedRun (· = '"') cs with
  | ⟨value, text, '"' :: rest⟩ => some ⟨value, text ++ ['"'], rest⟩
  | _ => none

theorem quoteBody_readFrom {cs : List Char} {piece : Piece (List Char)} (h : quoteBody cs = some piece) :
    piece.ReadFrom cs := by
  simp only [quoteBody] at h
  split at h
  · rename_i hr
    cases h
    have := escapedRun_append (· = '"') cs
    exact ⟨by simpa [hr] using this, by simp⟩
  · cases h

/-- Reads the token that starts with the character `c` and goes on with `cs`. -/
def lexeme (c : Char) (cs : List Char) : Except Fault (Piece (TokenKind (List Char))) :=
  match c, cs with
  | '/', '*' :: cs =>
    match commentBody 0 cs with
    | none => .error ⟨.unterminatedComment, []⟩
    | some body => .ok ⟨.comment (String.ofList body.value), '/' :: '*' :: body.text, body.rest⟩
  | '~', cs =>
    match literalBody cs with
    | .error fault => .error (fault.behind ['~'])
    | .ok body => .ok ⟨.literal body.value, '~' :: body.text, body.rest⟩
  | '"', cs =>
    match quoteBody cs with
    | none => .error ⟨.unterminatedQuote, []⟩
    | some body => .ok ⟨.quote (String.ofList body.value), '"' :: body.text, body.rest⟩
  | '@', cs =>
    match reference cs with
    | none => .error ⟨.invalidReference, []⟩
    | some ref => .ok ⟨.reference ref.value, '@' :: ref.text, ref.rest⟩
  | c, cs =>
    match punctuation c with
    | some kind => .ok ⟨kind, [c], cs⟩
    | none =>
      if isNameStart c then
        let name := c :: cs.takeWhile isNamePart
        .ok ⟨.ident (String.ofList name), name, cs.dropWhile isNamePart⟩
      else
        .error ⟨.unexpectedCharacter c, []⟩

theorem lexeme_readFrom {c : Char} {cs : List Char} {piece : Piece (TokenKind (List Char))}
    (h : lexeme c cs = .ok piece) : piece.ReadFrom (c :: cs) := by
  unfold lexeme at h
  split at h
  · split at h
    · cases h
    · rename_i hb; cases h; exact ⟨by simp [(commentBody_readFrom hb).append], by simp⟩
  · split at h
    · cases h
    · rename_i hb; cases h; exact ⟨by simp [(literalBody_readFrom hb).append], by simp⟩
  · split at h
    · cases h
    · rename_i hb; cases h; exact ⟨by simp [(quoteBody_readFrom hb).append], by simp⟩
  · split at h
    · cases h
    · rename_i hb; cases h; exact ⟨by simp [(reference_readFrom hb).append], by simp⟩
  · split at h
    · cases h; exact ⟨by simp, by simp⟩
    · split at h
      · cases h; exact ⟨by simp, by simp⟩
      · cases h

end Lexeme

/-! ## A whole text -/

/-- A token without its place, the characters it was read from, and the blank behind it. -/
structure Lexeme where
  kind : TokenKind (List Char)
  text : List Char
  blank : List Char
deriving DecidableEq

/-- Reads a text that does not start with blank as lexemes for as long as that is possible. With a fault
    the lexemes are those in front of it. -/
def lexemes : List Char → List Lexeme × Option Fault
  | [] => ([], none)
  | c :: cs =>
    match _h : Lexeme.lexeme c cs with
    | .error fault => ([], some fault)
    | .ok piece =>
      let following := lexemes (piece.rest.dropWhile Lexeme.isBlank)
      (⟨piece.value, piece.text, piece.rest.takeWhile Lexeme.isBlank⟩ :: following.1, following.2)
termination_by cs => cs.length
decreasing_by
  have := (Lexeme.lexeme_readFrom _h).length
  have := (List.dropWhile_suffix Lexeme.isBlank (l := piece.rest)).length_le
  omega

end HtmlTemplate
