import HtmlTemplate.Number.Basic

/-!
# Rounding to a number

Every quotient of integers has a nearest floating-point number, ties going to the one with the even
mantissa. Integers, decimals and shorter floating-point formats are all read through it.

## Contents

* `roundDiv` — a quotient rounded to the nearest integer, ties to even;
* `floorLog2` — the binary order of magnitude of a quotient;
* `Number.ofQuotient` — a quotient rounded to the nearest number;
* `Number.ofInt`, `Number.ofDecimal`, `Number.ofSingleBits` — its uses.
-/

namespace HtmlTemplate

-- Powers are those of the core library, also where others are in scope.
attribute [local instance (5000)] instPowNat

/-- `num / den` rounded to the nearest integer, a half going to the even neighbour. -/
def roundDiv (num den : Nat) : Nat :=
  let quotient := num / den
  let twice := 2 * (num % den)
  if twice < den || (twice = den && quotient % 2 = 0) then quotient else quotient + 1

/-- The integer `k` with `2 ^ k ≤ num / den < 2 ^ (k + 1)`, for positive `num` and `den`. -/
def floorLog2 (num den : Nat) : Int :=
  let k : Int := (num.log2 : Int) - den.log2
  if num * 2 ^ (-k).toNat < den * 2 ^ k.toNat then k - 1 else k

namespace Number

/-- The bits of an infinite magnitude. -/
def infiniteMagnitude : Nat := maxExponentField * 2 ^ (52 : Nat)

/-- The bits of the magnitude nearest to `num / den`. The mantissa gets 53 binary digits as long as the
    exponent is not below the lowest one, and a mantissa that rounding carries to 54 digits moves on to the
    next exponent by itself, because the fields are adjacent. -/
def magnitudeOfQuotient (num den : Nat) : Nat :=
  if num = 0 then
    0
  else
    let exponent := max (-1074) (floorLog2 num den - 52)
    let mantissa := roundDiv (num * 2 ^ (-exponent).toNat) (den * 2 ^ exponent.toNat)
    min infiniteMagnitude ((exponent + 1074).toNat * 2 ^ (52 : Nat) + mantissa)

/-- The number nearest to `± num / den`. From half a unit above the greatest finite number on, that is
    infinity. -/
def ofQuotient (negative : Bool) (num den : Nat) : Number :=
  ofMagnitude negative (magnitudeOfQuotient num den)

/-- The number nearest to an integer. -/
def ofInt (n : Int) : Number := ofQuotient (n < 0) n.natAbs 1

/-- The number nearest to `± digits · 10 ^ exponent`. -/
def ofDecimal (negative : Bool) (digits : Nat) (exponent : Int) : Number :=
  ofQuotient negative (digits * 10 ^ exponent.toNat) (10 ^ (-exponent).toNat)

/-- The number with the value of a floating-point number of 32 bits, which has an exponent field of 8
    bits. A NaN stays one and is made quiet. -/
def ofSingleBits (single : UInt32) : Number :=
  let negative : Bool := 2 ^ (31 : Nat) ≤ single.toNat
  let exponent := single.toNat / 2 ^ (23 : Nat) % 2 ^ (8 : Nat)
  let fraction := single.toNat % 2 ^ (23 : Nat)
  if exponent = 255 then
    ofMagnitude negative <|
      infiniteMagnitude +
        if fraction = 0 then 0 else 2 ^ (51 : Nat) + fraction % 2 ^ (22 : Nat) * 2 ^ (29 : Nat)
  else
    let mantissa := if exponent = 0 then fraction else fraction + 2 ^ (23 : Nat)
    ofQuotient negative (mantissa * 2 ^ max exponent 1) (2 ^ (150 : Nat))

end Number

end HtmlTemplate
