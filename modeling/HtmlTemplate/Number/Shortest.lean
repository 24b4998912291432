import HtmlTemplate.Number.Basic

/-!
# Shortest decimals

Among all decimals that round to a given floating-point number, the one to print has the fewest digits, and
among those with the fewest it is the nearest. The points of a coarser power-of-ten grid have fewer digits,
so it is found on the coarsest grid that has a point among the decimals in question; on each grid only the
two neighbours of the number have to be tried.

## Contents

* `Decimal` — digits and a power of ten;
* `Neighbourhood` — the reals that round to a number, on a scale on which they are integers;
* `Neighbourhood.onGrid` — the neighbour on a grid, if one rounds to the number;
* `Number.shortest` — the shortest decimal of a number.
-/

namespace HtmlTemplate

-- Powers are those of the core library, also where others are in scope.
attribute [local instance (5000)] instPowNat

/-- The decimal `digits · 10 ^ exponent`. -/
structure Decimal where
  digits : Nat
  exponent : Int
deriving DecidableEq, Inhabited

/-- The reals around `centre` that round to it: from `low` to `high`, all three to be multiplied by
    `2 ^ scale`. Whether the two ends belong to it depends on `closed`. -/
structure Neighbourhood where
  low : Nat
  centre : Nat
  high : Nat
  scale : Int
  closed : Bool
deriving DecidableEq

namespace Neighbourhood

/-- Whether `den · point`, a point measured in units of `1 / den`, lies in the neighbourhood. -/
def holds (around : Neighbourhood) (den point : Nat) : Bool :=
  let low := around.low * den
  let high := around.high * den
  if around.closed then low ≤ point && point ≤ high else low < point && point < high

/-- The multiple of `10 ^ exponent` that is nearest to the centre, if it lies in the neighbourhood; else
    the one on the other side, if that lies in it. When both are equally near the greater one comes
    first. -/
def onGrid (around : Neighbourhood) (exponent : Int) : Option Nat :=
  let step := 10 ^ exponent.toNat * 2 ^ (-around.scale).toNat
  let den := 10 ^ (-exponent).toNat * 2 ^ around.scale.toNat
  let below := around.centre * den / step
  let remainder := around.centre * den % step
  -- At equal distance the greater neighbour comes first.
  let candidates := if 2 * remainder < step then [below, below + 1] else [below + 1, below]
  candidates.find? fun digits => holds around den (digits * step)

/-- Tries the grids from `10 ^ (steps - 325)` down to `10 ^ (-324)`. -/
def coarsest (around : Neighbourhood) : (steps : Nat) → Decimal
  | 0 => ⟨0, 0⟩
  | steps + 1 =>
    let exponent : Int := (steps : Int) - 324
    match around.onGrid exponent with
    | some digits => ⟨digits, exponent⟩
    | none => coarsest around steps

end Neighbourhood

namespace Number

/-- What rounds to the magnitude of a finite number. The neighbours are one unit away, but below the lowest
    mantissa of an exponent the units are half as large. A tie goes to the even mantissa. -/
def neighbourhood (x : Number) : Neighbourhood where
  low := 4 * x.mantissa - if x.fraction = 0 && 1 < x.exponentField then 1 else 2
  centre := 4 * x.mantissa
  high := 4 * x.mantissa + 2
  scale := x.exponent - 2
  closed := x.mantissa % 2 = 0

/-- The shortest decimal that rounds to the magnitude of a finite number other than zero. No such number
    reaches `10 ^ 309`, and the neighbourhood of none of them is so small that it lies between two points
    of the grid `10 ^ (-324)`. -/
def shortest (x : Number) : Decimal := x.neighbourhood.coarsest 633

end Number

end HtmlTemplate
