import HtmlTemplate.Number.Rounding

/-!
# Scaling by powers of ten

Reading a decimal in steps: the digits are rounded to a number first, and then multiplied or divided by a
power of ten that is itself rounded. Each step rounds once more, so the result can differ from the nearest
number in the last bits when there are many digits or a large exponent.

## Contents

* `Number.times`, `Number.dividedBy` — products and quotients of magnitudes, rounded;
* `Number.powerOfTen` — the number nearest to a power of ten;
* `Number.scaleByTen?` — digits and a decimal exponent, unless the number is too large.
-/

namespace HtmlTemplate

-- Powers are those of the core library, also where others are in scope.
attribute [local instance (5000)] instPowNat

namespace Number

/-- The magnitude of a finite number times `den`, for the denominator that goes with its exponent. -/
def numerator (x : Number) : Nat := x.mantissa * 2 ^ x.exponent.toNat

/-- The denominator of a finite number. -/
def denominator (x : Number) : Nat := 2 ^ (-x.exponent).toNat

/-- The product of two finite magnitudes, rounded. -/
def times (x y : Number) : Number :=
  ofQuotient false (x.numerator * y.numerator) (x.denominator * y.denominator)

/-- The quotient of two finite magnitudes, rounded, `y` not being zero. -/
def dividedBy (x y : Number) : Number :=
  ofQuotient false (x.numerator * y.denominator) (x.denominator * y.numerator)

/-- The number nearest to `10 ^ n`. -/
def powerOfTen (n : Nat) : Number := ofDecimal false 1 n

/-- The greatest exponent of a power of ten that is a finite number. -/
def maxPowerOfTen : Nat := 308

/-- `significand · 10 ^ exponent`, rounded step by step, or nothing if that is infinite. A division by more
    than the greatest power of ten takes two steps, after which any significand of 64 bits has vanished
    unless the exponent is in reach. -/
def scaleByTen? (significand : Nat) (exponent : Int) : Option Number :=
  let x := ofInt significand
  match exponent with
  | .ofNat n =>
    if n ≤ maxPowerOfTen then
      let product := x.times (powerOfTen n)
      if product.isFinite then some product else none
    else if significand = 0 then
      some zero
    else
      none
  | .negSucc m =>
    let n := m + 1
    if n ≤ maxPowerOfTen then
      some (x.dividedBy (powerOfTen n))
    else if n ≤ 2 * maxPowerOfTen then
      some ((x.dividedBy (powerOfTen maxPowerOfTen)).dividedBy (powerOfTen (n - maxPowerOfTen)))
    else
      some zero

/-- The same magnitude with the given sign. -/
def withSign (negative : Bool) (x : Number) : Number := ofMagnitude negative x.magnitude

end Number

end HtmlTemplate
