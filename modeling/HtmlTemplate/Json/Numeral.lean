import HtmlTemplate.Number.Scale

/-!
# JSON numerals

A numeral is an optional minus sign, digits without leading zeros, an optional fraction and an optional
exponent. Digits count as long as they fit into 64 bits; of the others only the number of places is kept.

## Contents

* `Json.Numeral` — a numeral taken apart;
* `Json.Numeral.read?` — the numeral at the front of a text;
* `Json.Numeral.value?` — its value, unless it is too large.
-/

namespace HtmlTemplate

-- Powers are those of the core library, also where others are in scope.
attribute [local instance (5000)] instPowNat

namespace Json

/-- The parts of a numeral, digits given by their values. -/
structure Numeral where
  negative : Bool
  whole : List Nat
  fraction : List Nat
  /-- Sign and digits of the exponent, if there is one. -/
  exponent : Option (Bool × List Nat)
deriving DecidableEq, Inhabited

/-- Reads one ASCII digit or more. -/
def digits? (cs : List Char) : Option (List Nat × List Char) :=
  match cs.takeWhile Char.isDigit with
  | [] => none
  | digits => some (digits.map fun c => c.toNat - '0'.toNat, cs.dropWhile Char.isDigit)

namespace Numeral

/-- Reads the fraction of a numeral, if there is one. A point needs a digit behind it. -/
def fraction? : List Char → Option (List Nat × List Char)
  | '.' :: cs => digits? cs
  | cs => some ([], cs)

/-- Reads the exponent of a numeral, if there is one. -/
def exponent? (cs : List Char) : Option (Option (Bool × List Nat) × List Char) :=
  let signed (cs : List Char) : Option (Option (Bool × List Nat) × List Char) :=
    match cs with
    | '-' :: cs => (digits? cs).map fun (digits, rest) => (some (true, digits), rest)
    | '+' :: cs => (digits? cs).map fun (digits, rest) => (some (false, digits), rest)
    | cs => (digits? cs).map fun (digits, rest) => (some (false, digits), rest)
  match cs with
  | 'e' :: cs => signed cs
  | 'E' :: cs => signed cs
  | cs => some (none, cs)

/-- Reads a numeral off the front of a text. A zero may only lead if it is the only digit of its part. -/
def read? (cs : List Char) : Option (Numeral × List Char) := do
  let (negative, cs) := match cs with
    | '-' :: cs => (true, cs)
    | cs => (false, cs)
  let (whole, cs) ← digits? cs
  if whole.head? = some 0 ∧ whole ≠ [0] then none else
  let (fraction, cs) ← fraction? cs
  let (exponent, cs) ← exponent? cs
  return (⟨negative, whole, fraction, exponent⟩, cs)

/-- The greatest significand. -/
def maxSignificand : Nat := 2 ^ (64 : Nat) - 1

/-- The greatest exponent that is counted. -/
def maxExponent : Nat := 2 ^ (31 : Nat) - 1

/-- Appends digits to a number as long as it does not pass `limit`, and answers with the digits that are
    left. -/
def accumulate (limit : Nat) : Nat → List Nat → Nat × List Nat
  | n, [] => (n, [])
  | n, digit :: digits =>
    if 10 * n + digit ≤ limit then accumulate limit (10 * n + digit) digits else (n, digit :: digits)

/-- The significand of a numeral and the decimal exponent that goes with it, its own exponent apart. -/
def significand (numeral : Numeral) : Nat × Int :=
  let (n, dropped) := accumulate maxSignificand 0 numeral.whole
  let (n, ignored) := accumulate maxSignificand n numeral.fraction
  (n, dropped.length - (numeral.fraction.length - ignored.length : Nat))

/-- The value of a numeral, or nothing if it is too large. An exponent that cannot be counted makes the
    number too large, or zero. -/
def value? (numeral : Numeral) : Option Number :=
  let (n, places) := numeral.significand
  let magnitude : Option Number := match numeral.exponent with
    | none => Number.scaleByTen? n places
    | some (negative, digits) =>
      match accumulate maxExponent 0 digits with
      | (exponent, []) =>
        Number.scaleByTen? n (if negative then places - exponent else places + exponent)
      | _ => if n ≠ 0 && !negative then none else some .zero
  magnitude.map (Number.withSign numeral.negative)

end Numeral

end Json

end HtmlTemplate
