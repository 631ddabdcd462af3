/-!
# Finite double-precision numbers

A finite binary64 number is a sign and a magnitude: the remaining 63 bits of its pattern as one natural number, below
the pattern of infinity.  Magnitudes are ordered as the numbers are, and a magnitude stands for the multiple `units`
of 2⁻¹⁰⁷⁴, the least positive number.

Rounding takes an exact quotient to the nearest magnitude, ties to an even one.  `round` is `none` where the nearest
number would be infinite.
-/

namespace ApiClient

/-- A finite binary64 number. -/
structure Binary64 where
  negative : Bool
  /-- The pattern without its sign bit. -/
  magnitude : Nat
  finite : magnitude < 0x7FF0000000000000
  deriving DecidableEq

namespace Binary64

/-- The leading bit of a normal significand. -/
def leadingBit : Nat := 0x10000000000000

/-- How far the significand is shifted: 2 ^ `scale` units are the last place. -/
def scale (x : Binary64) : Nat := x.magnitude / leadingBit - 1

/-- The significand, with its leading bit where the number is normal. -/
def significand (x : Binary64) : Nat :=
  if x.magnitude < leadingBit then x.magnitude else leadingBit + x.magnitude % leadingBit

/-- The number without its sign, in units of 2⁻¹⁰⁷⁴. -/
def units (x : Binary64) : Nat := x.significand <<< x.scale

/-- Positive zero. -/
def zero : Binary64 := ⟨false, 0, by decide⟩

/-- Whether the number is zero, of either sign. -/
def isZero (x : Binary64) : Bool := x.magnitude == 0

/-- The number with the given sign. -/
def withSign (negative : Bool) (x : Binary64) : Binary64 := ⟨negative, x.magnitude, x.finite⟩

/-! ### Rounding -/

/-- `num / den` to the nearest natural number, a tie to the even one. -/
def nearestEven (num den : Nat) : Nat :=
  let q := num / den
  let r := num % den
  if 2 * r < den ∨ (2 * r = den ∧ q % 2 = 0) then q else q + 1

/-- The number nearest to `num / den`, a tie to the even significand; `none` if that is infinity. -/
def round (negative : Bool) (num den : Nat) : Option Binary64 :=
  let scaled := num <<< 1074
  let shift := (scaled / den).log2 - 52
  let magnitude := shift * leadingBit + nearestEven scaled (den <<< shift)
  if h : magnitude < 0x7FF0000000000000 then some ⟨negative, magnitude, h⟩ else none

/-- The number nearest to an integer. -/
def ofInt (n : Int) : Option Binary64 := round (n < 0) n.natAbs 1

/-- The product of two numbers, rounded; `none` if that is infinity. -/
def mul (x y : Binary64) : Option Binary64 := round (x.negative != y.negative) (x.units * y.units) (1 <<< 2148)

/-- The quotient of two numbers, the second not zero, rounded; `none` if that is infinity. -/
def div (x y : Binary64) : Option Binary64 := round (x.negative != y.negative) x.units y.units

end Binary64

end ApiClient
