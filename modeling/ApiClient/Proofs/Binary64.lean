import ApiClient.Binary64.Notation

/-!
# Whole numbers as doubles

A whole number of 64 bits has a nearest double, which is zero only if the number is (`exists_ofInt`): the rounding
shifts by the length of the number, so a number other than zero keeps its leading bit.  The text of a double is never
empty (`print_ne_nil`).
-/

namespace ApiClient.Binary64

/-! ### Rounding -/

theorem nearestEven_le (num den : Nat) : nearestEven num den ≤ num / den + 1 := by
  unfold nearestEven
  dsimp only
  split <;> omega

private theorem log2_shiftLeft {n : Nat} (hn : n ≠ 0) (hlt : n < 0x10000000000000000) (k : Nat) :
    k ≤ (n <<< k).log2 ∧ (n <<< k).log2 < k + 64 := by
  have hpos : 0 < 2 ^ k := Nat.two_pow_pos k
  have hne : n * 2 ^ k ≠ 0 := Nat.mul_ne_zero hn (Nat.ne_of_gt hpos)
  rw [Nat.shiftLeft_eq]
  constructor
  · exact (Nat.le_log2 hne).2 (Nat.le_mul_of_pos_left _ (Nat.pos_of_ne_zero hn))
  · rw [Nat.log2_lt hne, Nat.pow_add, Nat.mul_comm]
    exact Nat.mul_lt_mul_of_pos_left hlt hpos

/-- A number shifted right until its leading bit is the one of a significand. -/
private theorem div_shiftLeft_lt {n : Nat} (h : 52 ≤ n.log2) : n / (1 <<< (n.log2 - 52)) < 0x20000000000000 := by
  have hpow : 0x20000000000000 = 2 ^ 53 := rfl
  rw [hpow, Nat.shiftLeft_eq, Nat.one_mul, Nat.div_lt_iff_lt_mul (Nat.two_pow_pos _), ← Nat.pow_add,
    show 53 + (n.log2 - 52) = n.log2 + 1 by omega]
  exact Nat.lt_log2_self

private theorem round_pos {n : Nat} (hn : n ≠ 0) (hlt : n < 0x10000000000000000) (negative : Bool) :
    ∃ x, round negative n 1 = some x ∧ x.isZero = false := by
  obtain ⟨hlow, hhigh⟩ := log2_shiftLeft hn hlt 1074
  unfold round
  dsimp only
  rw [Nat.div_one]
  generalize n <<< 1074 = scaled at hlow hhigh
  have hquotient := div_shiftLeft_lt (n := scaled) (by omega)
  have hnearest := nearestEven_le scaled (1 <<< (scaled.log2 - 52))
  have hmagnitude : (scaled.log2 - 52) * leadingBit + nearestEven scaled (1 <<< (scaled.log2 - 52)) <
      0x7FF0000000000000 := by
    unfold leadingBit
    omega
  refine ⟨_, dif_pos hmagnitude, ?_⟩
  rw [isZero, beq_eq_false_iff_ne]
  unfold leadingBit
  dsimp only
  omega

/-- A whole number of 64 bits has a nearest double, which is zero only if the number is. -/
theorem exists_ofInt {n : Int} (h : -0x8000000000000000 ≤ n ∧ n < 0x10000000000000000) :
    ∃ x, ofInt n = some x ∧ x.isZero = (n == 0) := by
  by_cases hn : n = 0
  · subst hn
    exact ⟨zero, by decide +kernel, rfl⟩
  · obtain ⟨x, hx, hzero⟩ := round_pos (n := n.natAbs) (by omega) (by omega) (n < 0)
    exact ⟨x, hx, by simp [hzero, hn]⟩

/-! ### Text -/

private theorem positional_ne_nil (digits : List Char) (whole : Int) : positional digits whole ≠ [] := by
  unfold positional
  split <;> simp

private theorem scientific_ne_nil (digits : List Char) (lead : Int) : scientific digits lead ≠ [] := by
  simp [scientific]

theorem print_ne_nil (x : Binary64) : x.print ≠ [] := by
  have hpositive : printPositive x ≠ [] := by
    unfold printPositive
    dsimp only
    split
    · exact positional_ne_nil _ _
    · exact scientific_ne_nil _ _
  unfold print
  dsimp only
  split
  · simp
  · split
    · simp
    · exact hpositive

end ApiClient.Binary64
