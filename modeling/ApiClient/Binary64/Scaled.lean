import ApiClient.Binary64.Basic

/-!
# Scaling by powers of ten

A significand of 64 bits times a power of ten, in floating-point steps: the significand is rounded, then multiplied or
divided by the power, which is rounded itself, and the result is rounded once more.  So the number may be off from the
nearest one in its last places, unless significand and power are small enough to be exact.

The powers go up to 10³⁰⁸.  A number to be divided by more is divided twice, and what is below 10⁻⁶¹⁶ is zero.
-/

namespace ApiClient.Binary64

/-- The number nearest to 10 ^ `k`. -/
def powerOfTen (k : Nat) : Option Binary64 := round false (Nat.pow 10 k) 1

/-- The largest exponent of a power of ten. -/
def maxPower : Nat := 308

/-- A number times 10 ^ `k`; `none` if that is infinity. -/
def scaleUp (x : Binary64) (k : Nat) : Option Binary64 := do
  if k ≤ maxPower then x.mul (← powerOfTen k) else none

/-- A number divided by 10 ^ `k`. -/
def scaleDown (x : Binary64) (k : Nat) : Option Binary64 := do
  if k ≤ maxPower then x.div (← powerOfTen k)
  else if k ≤ 2 * maxPower then (← x.div (← powerOfTen maxPower)).div (← powerOfTen (k - maxPower))
  else some (zero.withSign x.negative)

/-- `significand` · 10 ^ `exponent`, for a significand below 2⁶⁴; `none` if that is infinity. -/
def ofScaled (negative : Bool) (significand : Nat) (exponent : Int) : Option Binary64 := do
  let x ← round negative significand 1
  if x.isZero then some x
  else if 0 ≤ exponent then x.scaleUp exponent.toNat
  else x.scaleDown (-exponent).toNat

end ApiClient.Binary64
