import ApiClient.Text.Utf8

/-!
# UTF-8: what is written is read back

The bytes of a character take the machine from between characters to between characters and put out that character
and nothing else, whatever bytes follow (`piecesFrom_encodeChar`).  So every text is read back from its bytes, by the
strict reading as by the lossy one (`decode?_encode`, `decodeSound_encode`, `decodeLossy_encode`).
-/

namespace ApiClient.Text.Utf8

/-! ### One character -/

theorem toNat_byte {n : Nat} (h : n < 256) : (UInt8.ofNat n).toNat = n := by
  rw [UInt8.toNat_ofNat']
  omega

/-- A code point is no surrogate and not above U+10FFFF. -/
private theorem toNat_valid (c : Char) : c.toNat < 0xD800 ∨ 0xDFFF < c.toNat ∧ c.toNat < 0x110000 := c.valid

private theorem step_more {p : Pending} {n : Nat} (hn : n < 256) (hlow : p.low ≤ n) (hhigh : n ≤ p.high)
    (howed : 1 < p.owed) :
    step (UInt8.ofNat n) (some p) = ([], some ⟨p.owed - 1, 0x80, 0xBF, p.value * 64 + (n - 0x80)⟩) := by
  simp only [step, toNat_byte hn, hlow, hhigh, and_self, if_true]
  rw [if_neg (by omega)]

private theorem step_last {p : Pending} {n : Nat} (hn : n < 256) (hlow : p.low ≤ n) (hhigh : n ≤ p.high)
    (howed : p.owed ≤ 1) :
    step (UInt8.ofNat n) (some p) = ([some (Char.ofNat (p.value * 64 + (n - 0x80)))], none) := by
  simp only [step, toNat_byte hn, hlow, hhigh, and_self, if_true, howed]

private theorem step_begun {n : Nat} {p : Pending} (hn : n < 256) (h : start n = .begun p) :
    step (UInt8.ofNat n) none = ([], some p) := by
  simp only [step, stepFirst, toNat_byte hn, h]

/-- The first of two bytes. -/
private theorem start_two {k : Nat} (hlow : 2 ≤ k) (hhigh : k < 32) :
    start (0xC0 + k) = .begun ⟨1, 0x80, 0xBF, k⟩ := by
  unfold start
  rw [if_neg (by omega), if_neg (by omega), if_pos (by omega), Nat.add_sub_cancel_left]

/-- The first of three bytes: the second one is at least `0xA0` after `0xE0`, which excludes overlong forms, and at
most `0x9F` after `0xED`, which excludes surrogates. -/
private theorem start_three {k : Nat} (hk : k < 16) :
    start (0xE0 + k) =
      .begun ⟨2, if k = 0 then 0xA0 else 0x80, if k = 13 then 0x9F else 0xBF, k⟩ := by
  unfold start
  rw [if_neg (by omega), if_neg (by omega), if_neg (by omega)]
  by_cases h0 : k = 0
  · simp [h0]
  by_cases h13 : k = 13
  · simp [h13]
  · rw [if_neg (by omega), if_neg (by omega), if_pos (by omega), if_neg h0, if_neg h13, Nat.add_sub_cancel_left]

/-- The first of four bytes: the second one is at least `0x90` after `0xF0`, which excludes overlong forms, and at
most `0x8F` after `0xF4`, which excludes values above U+10FFFF. -/
private theorem start_four {k : Nat} (hk : k < 5) :
    start (0xF0 + k) =
      .begun ⟨3, if k = 0 then 0x90 else 0x80, if k = 4 then 0x8F else 0xBF, k⟩ := by
  unfold start
  rw [if_neg (by omega), if_neg (by omega), if_neg (by omega), if_neg (by omega), if_neg (by omega),
    if_neg (by omega)]
  by_cases h0 : k = 0
  · simp [h0]
  by_cases h4 : k = 4
  · simp [h4]
  · rw [if_neg (by omega), if_pos (by omega), if_neg h0, if_neg h4, Nat.add_sub_cancel_left]

/-- The bytes of a character put out that character. -/
theorem piecesFrom_encodeChar (c : Char) (rest : List UInt8) :
    piecesFrom none (encodeChar c ++ rest) = some c :: piecesFrom none rest := by
  have hvalid := toNat_valid c
  have hc : Char.ofNat c.toNat = c := Char.ofNat_toNat c
  -- One case for each length; in each the value is put together again from six bits a byte.
  unfold encodeChar
  by_cases h1 : c.toNat < 0x80
  · have hstep : step (UInt8.ofNat c.toNat) none = ([some (Char.ofNat c.toNat)], none) := by
      simp only [step, stepFirst, toNat_byte (show c.toNat < 256 by omega), start, h1, if_true]
    simp only [h1, if_true, List.cons_append, List.nil_append, piecesFrom, hstep, hc]
  by_cases h2 : c.toNat < 0x800
  · have hfirst := step_begun (by omega) (start_two (k := c.toNat / 64) (by omega) (by omega))
    have hlast := step_last (p := ⟨1, 0x80, 0xBF, c.toNat / 64⟩) (n := 0x80 + c.toNat % 64) (by omega) (by simp)
      (by simp only; omega) (by simp)
    have hvalue : c.toNat / 64 * 64 + (0x80 + c.toNat % 64 - 0x80) = c.toNat := by omega
    simp only [h1, h2, if_true, if_false, List.cons_append, List.nil_append, piecesFrom, hfirst, hlast, hvalue, hc]
  by_cases h3 : c.toNat < 0x10000
  · have hfirst := step_begun (by omega) (start_three (k := c.toNat / 4096) (by omega))
    have hmore := step_more (p := ⟨2, if c.toNat / 4096 = 0 then 0xA0 else 0x80,
      if c.toNat / 4096 = 13 then 0x9F else 0xBF, c.toNat / 4096⟩) (n := 0x80 + c.toNat / 64 % 64) (by omega)
      (by simp only; split <;> omega) (by simp only; split <;> omega) (by simp)
    have hlast := step_last (p := ⟨1, 0x80, 0xBF, c.toNat / 4096 * 64 + (0x80 + c.toNat / 64 % 64 - 0x80)⟩)
      (n := 0x80 + c.toNat % 64) (by omega) (by simp) (by simp only; omega) (by simp)
    have hvalue : (c.toNat / 4096 * 64 + (0x80 + c.toNat / 64 % 64 - 0x80)) * 64 + (0x80 + c.toNat % 64 - 0x80) =
        c.toNat := by omega
    simp only [h1, h2, h3, if_true, if_false, List.cons_append, List.nil_append, piecesFrom, hfirst, hmore,
      Nat.add_one_sub_one, hlast, hvalue, hc]
  · have hfirst := step_begun (by omega) (start_four (k := c.toNat / 262144) (by omega))
    have hmore := step_more (p := ⟨3, if c.toNat / 262144 = 0 then 0x90 else 0x80,
      if c.toNat / 262144 = 4 then 0x8F else 0xBF, c.toNat / 262144⟩) (n := 0x80 + c.toNat / 4096 % 64) (by omega)
      (by simp only; split <;> omega) (by simp only; split <;> omega) (by simp)
    have hmore' := step_more (p := ⟨2, 0x80, 0xBF, c.toNat / 262144 * 64 + (0x80 + c.toNat / 4096 % 64 - 0x80)⟩)
      (n := 0x80 + c.toNat / 64 % 64) (by omega) (by simp) (by simp only; omega) (by simp)
    have hlast := step_last (p := ⟨1, 0x80, 0xBF, (c.toNat / 262144 * 64 + (0x80 + c.toNat / 4096 % 64 - 0x80)) * 64 +
      (0x80 + c.toNat / 64 % 64 - 0x80)⟩) (n := 0x80 + c.toNat % 64) (by omega) (by simp) (by simp only; omega)
      (by simp)
    have hvalue : ((c.toNat / 262144 * 64 + (0x80 + c.toNat / 4096 % 64 - 0x80)) * 64 +
        (0x80 + c.toNat / 64 % 64 - 0x80)) * 64 + (0x80 + c.toNat % 64 - 0x80) = c.toNat := by omega
    simp only [h1, h2, h3, if_false, List.cons_append, List.nil_append, piecesFrom, hfirst, hmore,
      Nat.add_one_sub_one, hmore', hlast, hvalue, hc]

/-! ### Texts -/

theorem pieces_encode_append (cs : List Char) (rest : List UInt8) :
    pieces (encode cs ++ rest) = cs.map some ++ pieces rest := by
  induction cs with
  | nil => rfl
  | cons c cs ih =>
    rw [pieces, encode, List.flatMap_cons, List.append_assoc, piecesFrom_encodeChar]
    exact congrArg (some c :: ·) ih

theorem pieces_encode (cs : List Char) : pieces (encode cs) = cs.map some := by
  simpa [pieces, piecesFrom] using pieces_encode_append cs []

/-- The bytes of a text are sound and hold that text. -/
theorem decodeSound_encode (cs : List Char) : decodeSound (encode cs) = (cs, true) := by
  have hall : ∀ p ∈ cs.map some, p.isSome := by simp
  have htake : (cs.map some ++ []).takeWhile Option.isSome = cs.map some ++ [] :=
    List.takeWhile_append_of_pos hall
  rw [List.append_nil] at htake
  simp [decodeSound, pieces_encode, htake]

theorem decode?_encode (cs : List Char) : decode? (encode cs) = some cs := by
  rw [decode?, decodeSound_encode]

theorem decodeLossy_encode (cs : List Char) : decodeLossy (encode cs) = cs := by
  simp [decodeLossy, pieces_encode, Function.comp_def]

theorem bytes_append (s t : String) : bytes (s ++ t) = bytes s ++ bytes t := by
  rw [bytes, String.toList_append]
  exact List.flatMap_append

/-- The bytes of a character that is not ASCII are not ASCII. -/
private theorem not_ascii_of_mem_encodeChar {c : Char} (hc : ¬c.toNat < 0x80) {b : UInt8} (hb : b ∈ encodeChar c) :
    ¬b.toNat < 0x80 := by
  have hvalid := toNat_valid c
  have hbyte : ∀ n, 0x80 ≤ n → n < 256 → ¬(UInt8.ofNat n).toNat < 0x80 := by
    intro n hlow hhigh
    rw [toNat_byte hhigh]
    omega
  unfold encodeChar at hb
  rw [if_neg hc] at hb
  split at hb
  · simp only [List.mem_cons, List.not_mem_nil, or_false] at hb
    rcases hb with rfl | rfl <;> exact hbyte _ (by omega) (by omega)
  · split at hb
    · simp only [List.mem_cons, List.not_mem_nil, or_false] at hb
      rcases hb with rfl | rfl | rfl <;> exact hbyte _ (by omega) (by omega)
    · simp only [List.mem_cons, List.not_mem_nil, or_false] at hb
      rcases hb with rfl | rfl | rfl | rfl <;> exact hbyte _ (by omega) (by omega)

/-- An ASCII byte in a text is a character of its own. -/
theorem mem_of_mem_encode {b : UInt8} {cs : List Char} (h : b ∈ encode cs) (hb : b.toNat < 0x80) :
    Char.ofNat b.toNat ∈ cs := by
  obtain ⟨c, hc, hmem⟩ := List.mem_flatMap.1 h
  by_cases hascii : c.toNat < 0x80
  · have hwhole : encodeChar c = [UInt8.ofNat c.toNat] := by
      unfold encodeChar
      rw [if_pos hascii]
    rw [hwhole, List.mem_singleton] at hmem
    rw [hmem, toNat_byte (by omega), Char.ofNat_toNat]
    exact hc
  · exact absurd hb (not_ascii_of_mem_encodeChar hascii hmem)

end ApiClient.Text.Utf8
