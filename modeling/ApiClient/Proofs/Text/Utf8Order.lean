import ApiClient.Proofs.Text.Utf8

/-!
# UTF-8 keeps the order of texts

Of two characters the one with the smaller code point has the smaller bytes, whatever bytes follow either
(`encodeChar_append_lt`): fewer bytes begin with a smaller one, and as many bytes are digits of the code point.  So
texts are ordered as their bytes are (`bytes_lt_iff`, `bytes_le_iff`).
-/

namespace ApiClient.Text.Utf8

/-! ### One character -/

private theorem byte_cons_lt {m n : Nat} (hm : m < 256) (hn : n < 256) (hle : m ≤ n) {xs ys : List UInt8}
    (h : m = n → xs < ys) : UInt8.ofNat m :: xs < UInt8.ofNat n :: ys := by
  rw [List.cons_lt_cons_iff]
  rcases Nat.lt_or_eq_of_le hle with hlt | heq
  · refine .inl ?_
    rw [UInt8.lt_iff_toNat_lt, UInt8.toNat_ofNat', UInt8.toNat_ofNat']
    omega
  · exact .inr ⟨by rw [heq], h heq⟩

/-- The ranges of code points with one, two, three and four bytes. -/
private theorem encodeChar_cases (c : Char) :
    (c.toNat < 0x80 ∧ encodeChar c = [UInt8.ofNat c.toNat]) ∨
    (0x80 ≤ c.toNat ∧ c.toNat < 0x800 ∧
      encodeChar c = [UInt8.ofNat (0xC0 + c.toNat / 64), UInt8.ofNat (0x80 + c.toNat % 64)]) ∨
    (0x800 ≤ c.toNat ∧ c.toNat < 0x10000 ∧
      encodeChar c = [UInt8.ofNat (0xE0 + c.toNat / 4096), UInt8.ofNat (0x80 + c.toNat / 64 % 64),
        UInt8.ofNat (0x80 + c.toNat % 64)]) ∨
    (0x10000 ≤ c.toNat ∧ c.toNat < 0x110000 ∧
      encodeChar c = [UInt8.ofNat (0xF0 + c.toNat / 262144), UInt8.ofNat (0x80 + c.toNat / 4096 % 64),
        UInt8.ofNat (0x80 + c.toNat / 64 % 64), UInt8.ofNat (0x80 + c.toNat % 64)]) := by
  have hvalid : c.toNat < 0xD800 ∨ 0xDFFF < c.toNat ∧ c.toNat < 0x110000 := c.valid
  unfold encodeChar
  by_cases h1 : c.toNat < 0x80
  · exact .inl ⟨h1, by simp [h1]⟩
  by_cases h2 : c.toNat < 0x800
  · exact .inr (.inl ⟨by omega, h2, by simp [h1, h2]⟩)
  by_cases h3 : c.toNat < 0x10000
  · exact .inr (.inr (.inl ⟨by omega, h3, by simp [h1, h2, h3]⟩))
  · exact .inr (.inr (.inr ⟨by omega, by omega, by simp [h1, h2, h3]⟩))

theorem encodeChar_append_lt {c d : Char} (h : c < d) (xs ys : List UInt8) :
    encodeChar c ++ xs < encodeChar d ++ ys := by
  have hlt : c.toNat < d.toNat := h
  rcases encodeChar_cases c with ⟨hc, ec⟩ | ⟨hc, hc', ec⟩ | ⟨hc, hc', ec⟩ | ⟨hc, hc', ec⟩ <;>
    rcases encodeChar_cases d with ⟨hd, ed⟩ | ⟨hd, hd', ed⟩ | ⟨hd, hd', ed⟩ | ⟨hd, hd', ed⟩ <;>
    rw [ec, ed] <;> refine byte_cons_lt (by omega) (by omega) (by omega) fun h₁ => ?_
  -- Equal first bytes are those of characters with as many bytes: two, three or four.
  all_goals try omega
  · refine byte_cons_lt (by omega) (by omega) (by omega) fun h₂ => ?_
    omega
  · refine byte_cons_lt (by omega) (by omega) (by omega) fun h₂ => ?_
    refine byte_cons_lt (by omega) (by omega) (by omega) fun h₃ => ?_
    omega
  · refine byte_cons_lt (by omega) (by omega) (by omega) fun h₂ => ?_
    refine byte_cons_lt (by omega) (by omega) (by omega) fun h₃ => ?_
    refine byte_cons_lt (by omega) (by omega) (by omega) fun h₄ => ?_
    omega

/-! ### Texts -/

theorem encode_lt {cs ds : List Char} (h : cs < ds) : encode cs < encode ds := by
  induction h with
  | @nil c cs =>
    obtain ⟨b, bs, hb⟩ : ∃ b bs, encodeChar c = b :: bs := by
      rcases encodeChar_cases c with ⟨-, h⟩ | ⟨-, -, h⟩ | ⟨-, -, h⟩ | ⟨-, -, h⟩ <;> exact ⟨_, _, h⟩
    rw [encode, encode, List.flatMap_cons, hb]
    exact .nil
  | cons h ih => exact List.append_left_lt ih
  | rel h => exact encodeChar_append_lt h _ _

theorem bytes_lt_iff {s t : String} : bytes s < bytes t ↔ s < t := by
  rw [String.lt_iff]
  constructor
  · intro h
    by_cases hst : s.toList < t.toList
    · exact hst
    · rcases List.le_iff_lt_or_eq.1 (List.not_lt.1 hst) with hlt | heq
      · exact absurd (List.lt_trans h (encode_lt hlt)) (List.lt_irrefl _)
      · rw [bytes, bytes, heq] at h
        exact absurd h (List.lt_irrefl _)
  · exact encode_lt

theorem bytes_le_iff {s t : String} : bytes s ≤ bytes t ↔ s ≤ t := by
  rw [← List.not_lt, bytes_lt_iff, String.not_lt]

end ApiClient.Text.Utf8
