/-!
# Positions in a source text

A position is a line and a column, both counted from 1. A column counts characters, and only a line
feed starts a new line. The functions here go both ways: `Position.after` walks a position forward over
characters, and `Position.offset` finds the byte at which a position stands in a text.

## Contents

* `Position`, `Range`, `Location` — a place, a stretch, and a stretch of one numbered source;
* `Position.after` — the position reached by walking over some characters;
* `Position.textBefore`, `Position.offset` — what lies in front of a position, and its length in bytes;
* `Position.pastLastLine` — the position behind the last line's text.
-/

namespace HtmlTemplate

/-- A line and a column, both counted from 1. -/
structure Position where
  line : Nat
  column : Nat
deriving DecidableEq, Inhabited

/-- The stretch of a source from `start` up to, and without, `stop`. -/
structure Range where
  start : Position
  stop : Position
deriving DecidableEq, Inhabited

/-- A range of the source with number `file`. -/
structure Location where
  file : Nat
  range : Range
deriving DecidableEq, Inhabited

namespace Position

/-- Where every text begins. -/
def first : Position := ⟨1, 1⟩

/-! ## Walking forward -/

/-- The position behind the character `c` that stands at `p`. -/
def next (p : Position) (c : Char) : Position :=
  if c = '\n' then ⟨p.line + 1, 1⟩ else ⟨p.line, p.column + 1⟩

/-- The position behind the characters `cs` that stand at `p`. -/
def after (p : Position) (cs : List Char) : Position := cs.foldl next p

@[simp] theorem after_nil (p : Position) : p.after [] = p := rfl

@[simp] theorem after_cons (p : Position) (c : Char) (cs : List Char) :
    p.after (c :: cs) = (p.next c).after cs := rfl

theorem after_append (p : Position) (cs ds : List Char) :
    p.after (cs ++ ds) = (p.after cs).after ds := List.foldl_append

/-- The one-column range at `p`. -/
def oneColumn (p : Position) : Range := ⟨p, ⟨p.line, p.column + 1⟩⟩

/-! ## Finding a position in a text -/

/-- Parts a text in front of its line number `skipped + 1`: the first `skipped` lines with their line
    feeds, and the rest. When there are not that many lines the first part is the whole text. -/
def splitLines : Nat → List Char → List Char × List Char
  | 0, cs => ([], cs)
  | _ + 1, [] => ([], [])
  | skipped + 1, c :: cs =>
    let parts := splitLines (if c = '\n' then skipped else skipped + 1) cs
    (c :: parts.1, parts.2)

/-- The characters of `cs` that lie in front of `p`. A column past the end of its line runs on into
    the next lines, and a position past the end of the text has the whole text in front of it. -/
def textBefore (cs : List Char) (p : Position) : List Char :=
  let parts := splitLines (p.line - 1) cs
  parts.1 ++ parts.2.take (p.column - 1)

/-- The length in bytes of some characters. -/
def byteLength : List Char → Nat
  | [] => 0
  | c :: cs => c.utf8Size + byteLength cs

/-- Lengths of parts add up. -/
theorem byteLength_append (cs ds : List Char) : byteLength (cs ++ ds) = byteLength cs + byteLength ds := by
  induction cs with
  | nil => exact (Nat.zero_add _).symm
  | cons c cs ih => exact (congrArg (c.utf8Size + ·) ih).trans (Nat.add_assoc ..).symm

/-- The byte offset of `p` in `text`. -/
def offset (text : String) (p : Position) : Nat := byteLength (textBefore text.toList p)

/-! ## The end of the last line -/

/-- The lines of a text without their ends. A line ends in a line feed, which a carriage return may
    precede; the empty text behind a last line feed is no line. -/
def lines : List Char → List (List Char)
  | [] => []
  | '\n' :: cs => [] :: lines cs
  | '\r' :: '\n' :: cs => [] :: lines cs
  | c :: cs =>
    match lines cs with
    | [] => [[c]]
    | line :: rest => (c :: line) :: rest

/-- The position behind the text of the last line, and the first position if there is no line. -/
def pastLastLine (cs : List Char) : Position :=
  match (lines cs).getLast? with
  | none => first
  | some line => ⟨(lines cs).length, line.length + 1⟩

end Position

end HtmlTemplate
