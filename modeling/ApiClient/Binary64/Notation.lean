import ApiClient.Binary64.Shortest

/-!
# Doubles in text

A number is written with the fewest digits that read back.  With the leading digit at 10 ^ E it is written
positionally for -5 ≤ E < 16, with at least one digit after the point, and otherwise in scientific notation with a
sign at the exponent in any case and no point after a single digit.
-/

namespace ApiClient.Binary64

/-- The decimal digits of a natural number. -/
def digitsOf (n : Nat) : List Char := Nat.toDigits 10 n

/-- Digits with the point after the first `whole` of them, zeros put in where digits are missing. -/
def positional (digits : List Char) (whole : Int) : List Char :=
  if whole ≤ 0 then '0' :: '.' :: List.replicate (-whole).toNat '0' ++ digits
  else
    let count := whole.toNat
    let fraction := digits.drop count
    digits.take count ++ List.replicate (count - digits.length) '0' ++
      '.' :: (if fraction.isEmpty then ['0'] else fraction)

/-- Digits in scientific notation, the leading one at 10 ^ `lead`. -/
def scientific (digits : List Char) (lead : Int) : List Char :=
  let mantissa :=
    match digits with
    | d :: e :: rest => d :: '.' :: e :: rest
    | single => single
  mantissa ++ 'e' :: (if lead < 0 then '-' else '+') :: digitsOf lead.natAbs

/-- A positive number as text. -/
def printPositive (x : Binary64) : List Char :=
  let d := x.shortest
  let digits := digitsOf d.digits
  let lead := d.exponent + digits.length - 1
  if -5 ≤ lead ∧ lead < 16 then positional digits (lead + 1) else scientific digits lead

/-- A number as text. -/
def print (x : Binary64) : List Char :=
  let body := if x.isZero then ['0', '.', '0'] else printPositive x
  if x.negative then '-' :: body else body

end ApiClient.Binary64
