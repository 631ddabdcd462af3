import ApiClient.Proofs.Text.Utf8
import ApiClient.Text.Form

/-!
# Percent encoding: what is written is read back

A percent-encoded text holds the characters that are kept, `%` and upper-case digits only (`mem_encode`), and two such
digits follow every `%` (`escapesDigits_encode`).  If `%` itself is not kept, reading gives the bytes of the text back
(`decodeBytes_encode`); if `+` is not kept either, it makes no difference whether `+` is read as a space.  A text
without `%` is read back whatever is kept (`decode?_encode_of_not_mem`).
-/

namespace ApiClient.Text

/-- What holds of all entries of a list is decided entry by entry. -/
theorem forall_mem_of_all {α : Type} {p : α → Prop} [DecidablePred p] {xs : List α}
    (h : (xs.all fun x => decide (p x)) = true) : ∀ x ∈ xs, p x :=
  fun x hx => of_decide_eq_true (List.all_eq_true.1 h x hx)

theorem length_le_flatMap {α β : Type} {f : α → List β} (h : ∀ x, f x ≠ []) (xs : List α) :
    xs.length ≤ (xs.flatMap f).length := by
  induction xs with
  | nil => exact Nat.zero_le _
  | cons x xs ih =>
    have hx := List.length_pos_iff.2 (h x)
    rw [List.flatMap_cons, List.length_append, List.length_cons]
    omega

namespace Percent

/-- An upper-case hexadecimal digit. -/
def IsUpperHex (c : Char) : Prop := ('0' ≤ c ∧ c ≤ '9') ∨ ('A' ≤ c ∧ c ≤ 'F')

instance (c : Char) : Decidable (IsUpperHex c) := inferInstanceAs (Decidable (_ ∨ _))

/-- Two upper-case digits follow every `%`. -/
def EscapesDigits (cs : List Char) : Prop :=
  ∀ i, cs[i]? = some '%' → ∃ h l, cs[i + 1]? = some h ∧ cs[i + 2]? = some l ∧ IsUpperHex h ∧ IsUpperHex l

/-! ### Digits -/

private theorem isUpperHex_upperDigit : ∀ n < 16, IsUpperHex (Hex.upperDigit n) := by decide

private theorem isAlphanum_of_isUpperHex {c : Char} (h : IsUpperHex c) : c.isAlphanum = true := by
  rcases h with h | h
  · have hdigit : c.isDigit = true := Bool.and_eq_true_iff.2 ⟨decide_eq_true h.1, decide_eq_true h.2⟩
    simp [Char.isAlphanum, hdigit]
  · have hle : c ≤ 'Z' := Char.le_trans h.2 (by decide)
    have hupper : c.isUpper = true := decide_eq_true ⟨h.1, hle⟩
    change (c.isUpper || c.isLower || c.isDigit) = true
    rw [hupper]
    rfl

private theorem toNat_div_lt (b : UInt8) : b.toNat / 16 < 16 := by
  have := b.toNat_lt
  omega

private theorem toNat_mod_lt (b : UInt8) : b.toNat % 16 < 16 := by omega

/-! ### Characters of an encoded text -/

theorem mem_escapeByte {b : UInt8} {c : Char} (h : c ∈ escapeByte b) : c = '%' ∨ IsUpperHex c := by
  simp only [escapeByte, List.mem_cons, List.not_mem_nil, or_false] at h
  rcases h with rfl | rfl | rfl
  · exact .inl rfl
  · exact .inr (isUpperHex_upperDigit _ (toNat_div_lt b))
  · exact .inr (isUpperHex_upperDigit _ (toNat_mod_lt b))

theorem mem_encode {keep : Char → Bool} {cs : List Char} {c : Char} (h : c ∈ encode keep cs) :
    keep c = true ∨ c = '%' ∨ IsUpperHex c := by
  obtain ⟨d, -, hc⟩ := List.mem_flatMap.1 h
  unfold encodeChar at hc
  split at hc
  · rename_i hkeep
    rw [List.mem_singleton] at hc
    exact .inl (hc ▸ hkeep)
  · obtain ⟨b, -, hb⟩ := List.mem_flatMap.1 hc
    exact .inr (mem_escapeByte hb)

theorem mem_encodeComponent {cs : List Char} {c : Char} (h : c ∈ encodeComponent cs) :
    isComponentChar c = true ∨ c = '%' := by
  rcases mem_encode h with hkeep | rfl | hhex
  · exact .inl hkeep
  · exact .inr rfl
  · exact .inl (by simp [isComponentChar, isAlphanum_of_isUpperHex hhex])

/-! ### Digits after every escape -/

theorem escapesDigits_nil : EscapesDigits [] := by simp [EscapesDigits]

theorem escapesDigits_append {xs ys : List Char} (hxs : EscapesDigits xs) (hys : EscapesDigits ys) :
    EscapesDigits (xs ++ ys) := by
  intro i hi
  by_cases hlt : i < xs.length
  · rw [List.getElem?_append_left hlt] at hi
    obtain ⟨h, l, hh, hl, hhex⟩ := hxs i hi
    have hlt' : i + 2 < xs.length := (List.getElem?_eq_some_iff.1 hl).1
    exact ⟨h, l, by rw [List.getElem?_append_left (by omega), hh], by rw [List.getElem?_append_left hlt', hl], hhex⟩
  · rw [List.getElem?_append_right (by omega)] at hi
    obtain ⟨h, l, hh, hl, hhex⟩ := hys _ hi
    refine ⟨h, l, ?_, ?_, hhex⟩
    · rw [List.getElem?_append_right (by omega), show i + 1 - xs.length = i - xs.length + 1 by omega, hh]
    · rw [List.getElem?_append_right (by omega), show i + 2 - xs.length = i - xs.length + 2 by omega, hl]

theorem escapesDigits_singleton {c : Char} (h : c ≠ '%') : EscapesDigits [c] := by
  intro i hi
  obtain ⟨hlt, hc⟩ := List.getElem?_eq_some_iff.1 hi
  obtain rfl : i = 0 := by
    simp only [List.length_singleton] at hlt
    omega
  exact absurd hc h

theorem escapesDigits_flatMap {α : Type} {f : α → List Char} {xs : List α} (h : ∀ x ∈ xs, EscapesDigits (f x)) :
    EscapesDigits (xs.flatMap f) := by
  induction xs with
  | nil => exact escapesDigits_nil
  | cons x xs ih =>
    rw [List.flatMap_cons]
    exact escapesDigits_append (h x List.mem_cons_self) (ih fun y hy => h y (List.mem_cons_of_mem _ hy))

theorem escapesDigits_escapeByte (b : UInt8) : EscapesDigits (escapeByte b) := by
  have hhigh := isUpperHex_upperDigit _ (toNat_div_lt b)
  have hlow := isUpperHex_upperDigit _ (toNat_mod_lt b)
  have hpercent : ¬IsUpperHex '%' := by decide
  intro i hi
  match i with
  | 0 => exact ⟨_, _, rfl, rfl, hhigh, hlow⟩
  | 1 => exact absurd (Option.some.inj hi ▸ hhigh) hpercent
  | 2 => exact absurd (Option.some.inj hi ▸ hlow) hpercent
  | i + 3 => simp [escapeByte] at hi

theorem escapesDigits_encode {keep : Char → Bool} (hkeep : keep '%' = false) (cs : List Char) :
    EscapesDigits (encode keep cs) := by
  refine escapesDigits_flatMap fun c _ => ?_
  unfold encodeChar
  split
  · rename_i hc
    refine escapesDigits_singleton ?_
    rintro rfl
    rw [hkeep] at hc
    cases hc
  · exact escapesDigits_flatMap fun b _ => escapesDigits_escapeByte b

/-! ### Reading -/

private theorem decodeBytes_escapeByte (b : UInt8) (rest : List Char) :
    decodeBytes (escapeByte b ++ rest) = b :: decodeBytes rest := by
  have hb : b.toNat / 16 * 16 + b.toNat % 16 = b.toNat := by omega
  simp only [escapeByte, List.cons_append, List.nil_append, decodeBytes,
    Hex.value?_upperDigit _ (toNat_div_lt b), Hex.value?_upperDigit _ (toNat_mod_lt b), hb, UInt8.ofNat_toNat]

theorem decodeBytes_escapes (bs : List UInt8) (rest : List Char) :
    decodeBytes (bs.flatMap escapeByte ++ rest) = bs ++ decodeBytes rest := by
  induction bs with
  | nil => rfl
  | cons b bs ih => rw [List.flatMap_cons, List.append_assoc, decodeBytes_escapeByte, ih, List.cons_append]

theorem decodeBytes_cons {c : Char} (h : c ≠ '%') (rest : List Char) :
    decodeBytes (c :: rest) = Utf8.encodeChar c ++ decodeBytes rest := by
  rw [decodeBytes]
  rintro h' l rest' ⟨⟩
  exact absurd rfl h

theorem decodeBytes_encode {keep : Char → Bool} (hkeep : keep '%' = false) (cs : List Char) :
    decodeBytes (encode keep cs) = Utf8.encode cs := by
  induction cs with
  | nil => rfl
  | cons c cs ih =>
    rw [encode, List.flatMap_cons, Utf8.encode, List.flatMap_cons]
    unfold encodeChar
    split
    · rename_i hc
      have hne : c ≠ '%' := by
        rintro rfl
        rw [hkeep] at hc
        cases hc
      rw [List.singleton_append, decodeBytes_cons hne]
      exact congrArg (Utf8.encodeChar c ++ ·) ih
    · rw [decodeBytes_escapes]
      exact congrArg (Utf8.encodeChar c ++ ·) ih

theorem decode?_encode {keep : Char → Bool} (hkeep : keep '%' = false) (cs : List Char) :
    decode? (encode keep cs) = some cs := by
  rw [decode?, decodeBytes_encode hkeep, Utf8.decode?_encode]

theorem encode_of_kept {keep : Char → Bool} {cs : List Char} (h : ∀ c ∈ cs, keep c = true) : encode keep cs = cs := by
  induction cs with
  | nil => rfl
  | cons c rest ih =>
    have hc : encodeChar keep c = [c] := by rw [encodeChar, if_pos (h c List.mem_cons_self)]
    have hrest := ih fun d hd => h d (List.mem_cons_of_mem _ hd)
    rw [encode, List.flatMap_cons, hc, ← encode, hrest, List.singleton_append]

theorem decode?_encode_of_not_mem {cs : List Char} (h : '%' ∉ cs) (keep : Char → Bool) :
    decode? (encode keep cs) = some cs := by
  have hchar : ∀ c ∈ cs, encodeChar keep c = encodeChar (fun c => keep c && c != '%') c := by
    intro c hc
    have hne : (c != '%') = true := by
      rw [bne_iff_ne]
      rintro rfl
      exact h hc
    rw [encodeChar, encodeChar, hne, Bool.and_true]
  have hencode : encode keep cs = encode (fun c => keep c && c != '%') cs := by
    rw [encode, encode, List.flatMap_def, List.flatMap_def, List.map_congr_left hchar]
  rw [hencode, decode?_encode (by simp)]

end Percent

namespace Form

open Percent

/-- Nothing changes in an encoded text when every `+` becomes a space. -/
theorem map_plus_encode {keep : Char → Bool} (hkeep : keep '+' = false) (cs : List Char) :
    ((encode keep cs).map fun c => if c = '+' then ' ' else c) = encode keep cs := by
  have hid : ∀ c ∈ encode keep cs, (if c = '+' then ' ' else c) = c := by
    intro c hc
    refine if_neg ?_
    rintro rfl
    rcases mem_encode hc with h | h | h
    · rw [hkeep] at h
      cases h
    · cases h
    · revert h
      decide
  rw [List.map_congr_left hid, List.map_id']

/-- A percent-encoded text is read back as a form component. -/
theorem decodeComponent_encode {keep : Char → Bool} (hpercent : keep '%' = false) (hplus : keep '+' = false)
    (cs : List Char) : decodeComponent (encode keep cs) = String.ofList cs := by
  rw [decodeComponent, map_plus_encode hplus, decodeBytes_encode hpercent, Utf8.decodeLossy_encode]

end Form

end ApiClient.Text
