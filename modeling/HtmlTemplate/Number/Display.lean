import HtmlTemplate.Number.Shortest

/-!
# Numbers as text

An integer below `2 ^ 53` is written as an integer of 64 bits, where zero has no sign. Any other number is written with
the digits of its shortest decimal, always positionally.

## Contents

* `Decimal.positional` — a decimal without an exponent;
* `Number.display` — the text of a number.
-/

namespace HtmlTemplate

-- Powers are those of the core library, also where others are in scope.
attribute [local instance (5000)] instPowNat

namespace Decimal

/-- Drops zeros at the end of the digits that follow the point. -/
def dropZeros (digits : List Char) : List Char := (digits.reverse.dropWhile (· = '0')).reverse

/-- The decimal written without an exponent, and without a point if nothing would follow it. -/
def positional (decimal : Decimal) : List Char :=
  let digits := Nat.toDigits 10 decimal.digits
  match decimal.exponent with
  | .ofNat zeros => digits ++ List.replicate zeros '0'
  | .negSucc n =>
    let places := n + 1
    let padded := List.replicate (places + 1 - digits.length) '0' ++ digits
    let whole := padded.take (padded.length - places)
    match dropZeros (padded.drop (padded.length - places)) with
    | [] => whole
    | fraction => whole ++ '.' :: fraction

end Decimal

namespace Number

/-- Below this magnitude every integer is a number. -/
def integerLimit : Nat := 2 ^ (53 : Nat)

/-- The text of a number. -/
def display (x : Number) : String :=
  let sign := if x.negative then ['-'] else []
  if x.isInt && x.truncated < integerLimit then
    toString x.toInt64
  else if x.isNaN then
    "NaN"
  else if x.isFinite then
    String.ofList (sign ++ x.shortest.positional)
  else
    String.ofList (sign ++ ['i', 'n', 'f'])

end Number

end HtmlTemplate
