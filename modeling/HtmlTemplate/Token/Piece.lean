import HtmlTemplate.Token.Basic

/-!
# Reading pieces off the front of a text

The small readers from which tokens are put together: runs of escaped text, comments, paths and references.
Each takes the text from some point on and answers with a `Piece`: a value, the characters it was read
from, and the characters that follow.

## Contents

* `Piece`, `Piece.ReadFrom` — what a reader answers, and that it was read off the front of a text;
* `escapedRun` — text in which a backslash takes the next character as it is;
* `commentBody` — the content of a comment, comments nesting to any depth;
* `path`, `reference` — dotted paths and the references made of them.

No reader loses a character, and those that need something to read make progress
(`escapedRun_append`, `commentBody_readFrom`, `path_readFrom`, `reference_readFrom`).
-/

namespace HtmlTemplate

/-- What was read off the front of a text: its value, its characters, and the characters behind it. -/
structure Piece (α : Type) where
  value : α
  text : List Char
  rest : List Char
deriving DecidableEq

/-- The piece was read off the front of `cs`, and something was read. -/
structure Piece.ReadFrom {α : Type} (piece : Piece α) (cs : List Char) : Prop where
  append : piece.text ++ piece.rest = cs
  nonempty : piece.text ≠ []

/-- What is left is shorter than what there was. -/
theorem Piece.ReadFrom.length {α : Type} {piece : Piece α} {cs : List Char} (h : piece.ReadFrom cs) :
    piece.rest.length < cs.length := by
  have := List.length_pos_iff.2 h.nonempty
  rw [← h.append, List.length_append]
  omega

namespace Lexeme

/-! ## Classes of characters -/

/-- Blank is what may separate tokens: space, tab, carriage return and line feed. -/
def isBlank (c : Char) : Bool := c = ' ' || c = '\t' || c = '\r' || c = '\n'

/-- An identifier starts with an ASCII letter or an underscore. -/
def isNameStart (c : Char) : Bool := c.isAlpha || c = '_'

/-- Behind its first character an identifier may also hold ASCII digits and hyphens. -/
def isNamePart (c : Char) : Bool := c.isAlphanum || c = '_' || c = '-'

/-! ## Escaped text -/

/-- Reads up to a character for which `stop` holds. A backslash makes the character behind it part of
    the run, whatever it is. The run also stops at a backslash that nothing follows. -/
def escapedRun (stop : Char → Bool) : List Char → Piece (List Char)
  | [] => ⟨[], [], []⟩
  | '\\' :: c :: cs =>
    let run := escapedRun stop cs
    ⟨c :: run.value, '\\' :: c :: run.text, run.rest⟩
  | c :: cs =>
    if c = '\\' || stop c then
      ⟨[], [], c :: cs⟩
    else
      let run := escapedRun stop cs
      ⟨c :: run.value, c :: run.text, run.rest⟩

theorem escapedRun_append (stop : Char → Bool) (cs : List Char) :
    (escapedRun stop cs).text ++ (escapedRun stop cs).rest = cs := by
  fun_induction escapedRun stop cs with
  | case1 | case3 => rfl
  | case2 c cs run ih => exact congrArg ('\\' :: c :: ·) ih
  | case4 c cs _ _ run ih => exact congrArg (c :: ·) ih

/-! ## Comments -/

/-- Reads the content of a comment and its closing delimiter, where `depth` comments have been opened
    inside it and not yet closed. Comments nest, and delimiters are taken from left to right. -/
def commentBody : Nat → List Char → Option (Piece (List Char))
  | _, [] => none
  | 0, '*' :: '/' :: cs => some ⟨[], ['*', '/'], cs⟩
  | depth + 1, '*' :: '/' :: cs =>
    (commentBody depth cs).map fun body =>
      ⟨'*' :: '/' :: body.value, '*' :: '/' :: body.text, body.rest⟩
  | depth, '/' :: '*' :: cs =>
    (commentBody (depth + 1) cs).map fun body =>
      ⟨'/' :: '*' :: body.value, '/' :: '*' :: body.text, body.rest⟩
  | depth, c :: cs =>
    (commentBody depth cs).map fun body => ⟨c :: body.value, c :: body.text, body.rest⟩

theorem commentBody_readFrom {depth : Nat} {cs : List Char} {body : Piece (List Char)}
    (h : commentBody depth cs = some body) : body.ReadFrom cs := by
  fun_induction commentBody depth cs generalizing body with
  | case1 => cases h
  | case2 => cases h; exact ⟨rfl, by simp⟩
  | case3 depth cs ih | case4 depth cs ih | case5 depth c cs _ _ _ ih =>
    obtain ⟨inner, hi, rfl⟩ := Option.map_eq_some_iff.1 h
    exact ⟨by simp [(ih hi).append], by simp⟩

/-! ## Paths -/

/-- Reads an identifier or a run of digits: one segment of a path. -/
def pathSegment : List Char → Option (Piece String)
  | [] => none
  | c :: cs =>
    if isNameStart c then
      let name := c :: cs.takeWhile isNamePart
      some ⟨String.ofList name, name, cs.dropWhile isNamePart⟩
    else if c.isDigit then
      let digits := c :: cs.takeWhile Char.isDigit
      some ⟨String.ofList digits, digits, cs.dropWhile Char.isDigit⟩
    else
      none

theorem pathSegment_readFrom {cs : List Char} {piece : Piece String} (h : pathSegment cs = some piece) :
    piece.ReadFrom cs := by
  unfold pathSegment at h
  split at h
  · cases h
  · split at h
    · cases h; exact ⟨by simp, by simp⟩
    · split at h
      · cases h; exact ⟨by simp, by simp⟩
      · cases h

/-- Reads the segments of a path. A dot that no segment follows is not part of it. -/
def path (cs : List Char) : Option (Piece Path) :=
  match _h : pathSegment cs with
  | none => none
  | some head =>
    match _hr : head.rest with
    | '.' :: cs' =>
      match path cs' with
      | none => some ⟨[head.value], head.text, head.rest⟩
      | some tail => some ⟨head.value :: tail.value, head.text ++ '.' :: tail.text, tail.rest⟩
    | _ => some ⟨[head.value], head.text, head.rest⟩
termination_by cs.length
decreasing_by
  have := (pathSegment_readFrom _h).length
  simp only [_hr, List.length_cons] at this
  omega

theorem path_readFrom {cs : List Char} {piece : Piece Path} (h : path cs = some piece) :
    piece.ReadFrom cs := by
  fun_induction path cs generalizing piece with
  | case1 => cases h
  | case2 cs head hs | case4 cs head hs =>
    cases h
    exact ⟨(pathSegment_readFrom hs).append, (pathSegment_readFrom hs).nonempty⟩
  | case3 cs head hs cs' hr tail ht ih =>
    cases h
    exact ⟨by simp [(ih ht).append, ← hr, (pathSegment_readFrom hs).append], by simp⟩

/-! ## References -/

/-- Reads a path, bare or in parentheses. -/
def pathOrGroup : List Char → Option (Piece Path)
  | '(' :: cs =>
    match path cs with
    | none => none
    | some inner =>
      match inner.rest with
      | ')' :: rest => some ⟨inner.value, '(' :: inner.text ++ [')'], rest⟩
      | _ => none
  | cs => path cs

theorem pathOrGroup_readFrom {cs : List Char} {piece : Piece Path} (h : pathOrGroup cs = some piece) :
    piece.ReadFrom cs := by
  unfold pathOrGroup at h
  split at h
  · split at h
    · cases h
    · rename_i hp
      split at h
      · rename_i hr
        cases h
        exact ⟨by simp [← hr, (path_readFrom hp).append], by simp⟩
      · cases h
  · exact path_readFrom h

/-- Reads what follows the at sign of a reference: a tilde if the text is to be escaped, and the path. -/
def reference : List Char → Option (Piece Reference)
  | '~' :: cs => (pathOrGroup cs).map fun path => ⟨⟨path.value, true⟩, '~' :: path.text, path.rest⟩
  | cs => (pathOrGroup cs).map fun path => ⟨⟨path.value, false⟩, path.text, path.rest⟩

theorem reference_readFrom {cs : List Char} {piece : Piece Reference} (h : reference cs = some piece) :
    piece.ReadFrom cs := by
  unfold reference at h
  split at h <;> obtain ⟨path, hp, rfl⟩ := Option.map_eq_some_iff.1 h
  · exact ⟨by simp [(pathOrGroup_readFrom hp).append], by simp⟩
  · exact ⟨(pathOrGroup_readFrom hp).append, (pathOrGroup_readFrom hp).nonempty⟩

end Lexeme

end HtmlTemplate
