/-!
# Decimal numbers

A number in decimal digits as it stands in paths and queries: at least one digit, and a plus sign may come first.
-/

namespace ApiClient.Text

/-- The value of a sequence of decimal digits, if there is at least one and nothing else. -/
def digitsValue? (cs : List Char) : Option Nat :=
  if cs.isEmpty || !cs.all Char.isDigit then none
  else some (cs.foldl (fun n d => n * 10 + (d.toNat - '0'.toNat)) 0)

/-- A number below a bound. -/
def numberBelow? (bound : Nat) (s : String) : Option Nat :=
  let digits :=
    match s.toList with
    | '+' :: rest => rest
    | cs => cs
  (digitsValue? digits).filter fun n => n < bound

end ApiClient.Text
