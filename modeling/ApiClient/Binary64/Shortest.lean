import ApiClient.Binary64.Basic

/-!
# The fewest digits that read back

A decimal reads back as `x` when it lies between the midpoints to the two neighbours of `x`; the midpoints themselves
count when the significand is even.  `shortest` looks at the grids of one, two, … seventeen significant digits.  The
first grid with a point between the midpoints wins; only the two grid points around `x` need to be tested, and of two
hits the nearer is taken, on a tie the one with the even last digit.  Seventeen digits always suffice.
-/

namespace ApiClient.Binary64

/-- The decimal `digits` · 10 ^ `exponent`. -/
structure Decimal where
  digits : Nat
  exponent : Int
  deriving DecidableEq

/-- The numbers that read back as one double, in quarters of a unit: from `low` to `high`, ends included or not. -/
structure Interval where
  low : Nat
  high : Nat
  closed : Bool

/-- The interval of a positive number.  Below a power of two the neighbour is half as far away as above it. -/
def interval (x : Binary64) : Interval :=
  let step := 1 <<< x.scale
  let below := if x.significand = leadingBit ∧ 0 < x.scale then step else 2 * step
  ⟨4 * x.units - below, 4 * x.units + 2 * step, x.significand % 2 = 0⟩

/-- Whether `num / den` quarters of a unit lie in an interval. -/
def Interval.contains (i : Interval) (num den : Nat) : Bool :=
  if i.closed then i.low * den ≤ num && num ≤ i.high * den else i.low * den < num && num < i.high * den

/-- One quarter of a unit is one part in this many. -/
def quartersPerOne : Nat := 1 <<< 1076

/-- The number of decimal digits of `n`, at least one. -/
def digitCount (n : Nat) : Nat := (Nat.toDigits 10 n).length

/-- The exponent of the leading decimal digit of `num / den`, for positive numbers. -/
def leadingExponent (num den : Nat) : Int :=
  let lead : Int := digitCount num - digitCount den
  let reached := if lead < 0 then den ≤ num * Nat.pow 10 (-lead).toNat else den * Nat.pow 10 lead.toNat ≤ num
  if reached then lead else lead - 1

/-- A decimal as quarters of a unit over a denominator. -/
def Decimal.quarters (d : Decimal) : Nat × Nat :=
  if d.exponent < 0 then (d.digits * quartersPerOne, Nat.pow 10 (-d.exponent).toNat)
  else (d.digits * Nat.pow 10 d.exponent.toNat * quartersPerOne, 1)

/-- Whether a decimal reads back as the positive number `x`. -/
def readsBack (x : Binary64) (d : Decimal) : Bool :=
  let (num, den) := d.quarters
  (interval x).contains num den

/-- The two points of the grid 10 ^ `exponent` around the positive number `x`, the nearer first, on a tie the one with
the even last digit. -/
def neighbours (x : Binary64) (exponent : Int) : Decimal × Decimal :=
  let value := 4 * x.units
  let (num, den) :=
    if exponent < 0 then (value * Nat.pow 10 (-exponent).toNat, quartersPerOne)
    else (value, quartersPerOne * Nat.pow 10 exponent.toNat)
  let below := num / den
  let twice := 2 * (num % den)
  if twice < den || (twice == den && below % 2 == 0) then (⟨below, exponent⟩, ⟨below + 1, exponent⟩)
  else (⟨below + 1, exponent⟩, ⟨below, exponent⟩)

/-- The point of the grid 10 ^ `exponent` that reads back as the positive number `x`, if there is one. -/
def onGrid (x : Binary64) (exponent : Int) : Option Decimal :=
  let (near, far) := neighbours x exponent
  if readsBack x near then some near else if readsBack x far then some far else none

/-- A decimal with the zeros at the end of its digits moved into the exponent, at most `fuel` of them. -/
def Decimal.trimZeros : Nat → Decimal → Decimal
  | 0, d => d
  | fuel + 1, d => if d.digits % 10 = 0 then trimZeros fuel ⟨d.digits / 10, d.exponent + 1⟩ else d

/-- The decimal with the fewest digits that reads back as the positive number `x`, and of those the nearest. -/
def shortest (x : Binary64) : Decimal :=
  let lead := leadingExponent (4 * x.units) quartersPerOne
  let found := (List.range 17).findSome? fun (k : Nat) => onGrid x (lead - k)
  (found.getD (neighbours x (lead - 16)).1).trimZeros 20

end ApiClient.Binary64
