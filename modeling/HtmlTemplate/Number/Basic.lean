/-!
# Numbers

Numeric parameters are binary floating-point numbers of 64 bits: a sign, an exponent of 11 bits and a
fraction of 52 bits. A finite number is `± mantissa · 2 ^ exponent`, and everything said about it here is
said in integers.

## Contents

* `Number` — the bits;
* `Number.mantissa`, `Number.exponent`, `Number.negative` — what the bits of a finite number mean;
* `Number.isInt`, `Number.toInt64` — whether the number has no fractional part, and the integer without it;
* `Number.equal` — equality as numbers: the two zeros are equal, and nothing equals a NaN.
-/

namespace HtmlTemplate

-- Powers are those of the core library, also where others are in scope.
attribute [local instance (5000)] instPowNat

/-- A floating-point number of 64 bits. -/
structure Number where
  bits : UInt64
deriving DecidableEq, Inhabited

namespace Number

/-- The number zero. -/
def zero : Number := ⟨0⟩

/-! ## The fields -/

/-- The sign bit is set. -/
def negative (x : Number) : Bool := 2 ^ (63 : Nat) ≤ x.bits.toNat

/-- The bits of the magnitude: exponent and fraction. -/
def magnitude (x : Number) : Nat := x.bits.toNat % 2 ^ (63 : Nat)

/-- The exponent field. -/
def exponentField (x : Number) : Nat := x.magnitude / 2 ^ (52 : Nat)

/-- The fraction field. -/
def fraction (x : Number) : Nat := x.magnitude % 2 ^ (52 : Nat)

/-- The exponent field of the numbers that are not finite. -/
def maxExponentField : Nat := 2047

/-- Neither infinite nor a NaN. -/
def isFinite (x : Number) : Bool := x.exponentField < maxExponentField

/-- Not a number. -/
def isNaN (x : Number) : Bool := x.exponentField = maxExponentField && x.fraction ≠ 0

/-- The mantissa of a finite number. Above the lowest exponent its leading bit is not stored. -/
def mantissa (x : Number) : Nat :=
  if x.exponentField = 0 then x.fraction else x.fraction + 2 ^ (52 : Nat)

/-- The exponent of a finite number. -/
def exponent (x : Number) : Int := (max x.exponentField 1 : Nat) - 1075

/-- The number with the given sign and bits of the magnitude. -/
def ofMagnitude (negative : Bool) (magnitude : Nat) : Number :=
  ⟨UInt64.ofNat (magnitude + if negative then 2 ^ (63 : Nat) else 0)⟩

/-! ## Integers -/

/-- The greatest integer in front of the magnitude of a finite number, or the magnitude itself. -/
def truncated (x : Number) : Nat :=
  x.mantissa * 2 ^ x.exponent.toNat / 2 ^ (-x.exponent).toNat

/-- The number is finite and has no fractional part. -/
def isInt (x : Number) : Bool := x.isFinite && x.mantissa % 2 ^ (-x.exponent).toNat = 0

/-- The number without its fractional part, as an integer of 64 bits. Out of their range the integer is the bound on
    the side of the number, and for a NaN it is zero. -/
def toInt64 (x : Number) : Int64 :=
  if x.isNaN then 0 else .ofIntClamp (if x.negative then -(x.truncated : Int) else x.truncated)

/-! ## Equality as numbers -/

/-- Whether two numbers are equal. A NaN is equal to nothing, and zero has two forms. -/
def equal (x y : Number) : Bool :=
  !x.isNaN && !y.isNaN && (x.bits = y.bits || (x.magnitude = 0 && y.magnitude = 0))

theorem equal_symm (x y : Number) : x.equal y = y.equal x := by
  simp only [equal, eq_comm (a := x.bits), Bool.and_comm (!x.isNaN), Bool.and_comm (decide (x.magnitude = 0))]

/-- A number is equal to itself unless it is a NaN. -/
theorem equal_self (x : Number) : x.equal x = !x.isNaN := by
  simp [equal]

end Number

end HtmlTemplate
