import ApiClient.Text.Fold

/-!
# Hexadecimal digits

Digits, pairs of digits for bytes, and byte sequences written as digits.

Key facts: `value?_lowerDigit` and `value?_upperDigit`, a written digit has its value; `value?_eq_some_iff`, the
ranges of the digits.
-/

namespace ApiClient.Text.Hex

/-- The value of a hexadecimal digit of either case. -/
def value? (c : Char) : Option Nat :=
  if '0' ≤ c ∧ c ≤ '9' then some (c.toNat - '0'.toNat)
  else if 'a' ≤ c ∧ c ≤ 'f' then some (c.toNat - 'a'.toNat + 10)
  else if 'A' ≤ c ∧ c ≤ 'F' then some (c.toNat - 'A'.toNat + 10)
  else none

/-- The lower-case digit of a value below 16. -/
def lowerDigit (n : Nat) : Char := Char.ofNat (if n < 10 then '0'.toNat + n else 'a'.toNat + (n - 10))

/-- The upper-case digit of a value below 16. -/
def upperDigit (n : Nat) : Char := Char.ofNat (if n < 10 then '0'.toNat + n else 'A'.toNat + (n - 10))

theorem value?_lowerDigit : ∀ n < 16, value? (lowerDigit n) = some n := by decide

theorem value?_upperDigit : ∀ n < 16, value? (upperDigit n) = some n := by decide

/-- The ranges of the digits, and the values in them. -/
theorem value?_eq_some_iff {c : Char} {n : Nat} :
    value? c = some n ↔ (48 ≤ c.toNat ∧ c.toNat ≤ 57 ∧ n = c.toNat - 48) ∨
      (97 ≤ c.toNat ∧ c.toNat ≤ 102 ∧ n = c.toNat - 87) ∨ (65 ≤ c.toNat ∧ c.toNat ≤ 70 ∧ n = c.toNat - 55) := by
  have hvalue : value? c = if 48 ≤ c.toNat ∧ c.toNat ≤ 57 then some (c.toNat - 48)
      else if 97 ≤ c.toNat ∧ c.toNat ≤ 102 then some (c.toNat - 97 + 10)
      else if 65 ≤ c.toNat ∧ c.toNat ≤ 70 then some (c.toNat - 65 + 10) else none := by
    rw [value?]
    simp only [Char.le_def, UInt32.le_iff_toNat_le]
    rfl
  rw [hvalue]
  split
  · simp only [Option.some.injEq]
    omega
  · split
    · simp only [Option.some.injEq]
      omega
    · split
      · simp only [Option.some.injEq]
        omega
      · simp only [reduceCtorEq, false_iff]
        omega

theorem isAlphanum_of_value? {c : Char} (h : value? c ≠ none) : c.isAlphanum = true := by
  obtain ⟨n, hn⟩ := Option.ne_none_iff_exists'.1 h
  rw [isAlphanum_iff]
  rcases value?_eq_some_iff.1 hn with ⟨hlow, hhigh, -⟩ | ⟨hlow, hhigh, -⟩ | ⟨hlow, hhigh, -⟩ <;> omega

/-- A byte sequence as lower-case digits, two for each byte. -/
def encode (bs : List UInt8) : List Char :=
  bs.flatMap fun b => [lowerDigit (b.toNat / 16), lowerDigit (b.toNat % 16)]

/-- The byte sequence that pairs of digits stand for. -/
def decode? : List Char → Option (List UInt8)
  | [] => some []
  | [_] => none
  | h :: l :: rest => do
    let high ← value? h
    let low ← value? l
    let tail ← decode? rest
    return UInt8.ofNat (high * 16 + low) :: tail

end ApiClient.Text.Hex
