/-!
# Sets of characters given by ranges

## Contents

* `CharRanges`, `CharRanges.contains` — a set of code points as a list of closed intervals.
-/

namespace HtmlTemplate

/-- A set of code points: closed intervals in increasing order, with gaps between them. -/
structure CharRanges where
  toList : List (Nat × Nat)

namespace CharRanges

/-- Looks for a code point among intervals in increasing order. -/
def find (code : Nat) : List (Nat × Nat) → Bool
  | [] => false
  | (low, high) :: ranges => low ≤ code && (code ≤ high || find code ranges)

/-- Whether the code point of `c` lies in one of the intervals. -/
def contains (ranges : CharRanges) (c : Char) : Bool := find c.toNat ranges.toList

/-- The empty set. -/
@[simp] theorem contains_nil (c : Char) : (CharRanges.mk []).contains c = false := rfl

end CharRanges

end HtmlTemplate
