import ApiClient.Json.Printer
import ApiClient.Json.Reader

/-!
# Strings and whole numbers are read back

A printed string is read back whatever follows its closing quote (`string_print`), one character of it by one step of
the reader (`stringTail_escapeChar`).  A printed whole number is read back whenever the text after it cannot be taken
for more of the number (`number_print`).
-/

namespace ApiClient.Json

open Text

/-! ### Strings -/

private theorem hexQuad_control {n : Nat} (h : n < 0x20) (rest : List Char) :
    hexQuad ('0' :: '0' :: Hex.lowerDigit (n / 16) :: Hex.lowerDigit (n % 16) :: rest) = .ok (n, rest) := by
  have hzero : Hex.value? '0' = some 0 := by decide
  have hn : n / 16 * 16 + n % 16 = n := by omega
  simp [hexQuad, hzero, Hex.value?_lowerDigit (n / 16) (by omega), Hex.value?_lowerDigit (n % 16) (by omega), hn]

private theorem unicodeEscape_control {n : Nat} (h : n < 0x20) (rest : List Char) :
    unicodeEscape ('0' :: '0' :: Hex.lowerDigit (n / 16) :: Hex.lowerDigit (n % 16) :: rest) =
      .ok (Char.ofNat n, rest) := by
  rw [unicodeEscape, hexQuad_control h]
  show (if 0xDC00 ≤ n ∧ n < 0xE000 then _ else _) = _
  rw [if_neg (by omega), if_neg (by omega)]

private theorem escape_letter {c letter : Char} (h : escapeLetter? c = some letter) (unicode : Reader Char)
    (rest : List Char) : escape unicode (letter :: rest) = .ok (c, rest) := by
  unfold escapeLetter? at h
  repeat' split at h
  all_goals cases h
  all_goals subst_vars; rfl

/-- Reading one written character of a string. -/
theorem stringTail_escapeChar (fuel : Nat) (acc : List Char) (c : Char) (rest : List Char) :
    stringTail unicodeEscape (fuel + 1) acc (escapeChar c ++ rest) =
      stringTail unicodeEscape fuel (c :: acc) rest := by
  have hslash : ∀ cs : List Char, stringTail unicodeEscape (fuel + 1) acc ('\\' :: cs) =
      (escape unicodeEscape cs >>= fun e => stringTail unicodeEscape fuel (e.1 :: acc) e.2) := fun _ => rfl
  unfold escapeChar
  split
  · rename_i h
    rcases h with rfl | rfl <;> rfl
  split
  · rename_i hcontrol
    split
    · rename_i letter hletter
      rw [List.cons_append, hslash, List.cons_append, escape_letter hletter]
      rfl
    · have hescape := unicodeEscape_control hcontrol rest
      rw [Char.ofNat_toNat] at hescape
      rw [List.cons_append, hslash]
      show (unicodeEscape ('0' :: '0' :: _ :: _ :: rest) >>= _) = _
      rw [hescape]
      rfl
  · rename_i hplain hcontrol
    rw [not_or] at hplain
    simp [stringTail, hplain.1, hplain.2, hcontrol]

private theorem stringTail_print (cs : List Char) (fuel : Nat) (acc rest : List Char) (h : cs.length < fuel) :
    stringTail unicodeEscape fuel acc (cs.flatMap escapeChar ++ '"' :: rest) =
      .ok (String.ofList (acc.reverse ++ cs), rest) := by
  induction cs generalizing fuel acc with
  | nil =>
    obtain ⟨fuel, rfl⟩ : ∃ n, fuel = n + 1 := ⟨fuel - 1, by simp at h; omega⟩
    simp [stringTail]
  | cons c cs ih =>
    obtain ⟨fuel, rfl⟩ : ∃ n, fuel = n + 1 := ⟨fuel - 1, by simp at h; omega⟩
    rw [List.flatMap_cons, List.append_assoc, stringTail_escapeChar, ih fuel (c :: acc) (by simp at h; omega)]
    simp

private theorem length_le_escaped (cs : List Char) : cs.length ≤ (cs.flatMap escapeChar).length := by
  induction cs with
  | nil => simp
  | cons c cs ih =>
    have hc : 1 ≤ (escapeChar c).length := by
      unfold escapeChar
      repeat' split
      all_goals simp
    rw [List.flatMap_cons, List.length_append, List.length_cons]
    omega

theorem string_print (s : String) (rest : List Char) :
    string unicodeEscape (s.toList.flatMap escapeChar ++ '"' :: rest) = .ok (s, rest) := by
  have hlen := length_le_escaped s.toList
  rw [string, stringTail_print]
  · simp
  · simp only [List.length_append, List.length_cons]
    omega

/-! ### Whole numbers -/

/-- A text that is not read as more of a number before it. -/
def EndsNumber (rest : List Char) : Prop :=
  ∀ c ∈ rest.head?, c.isDigit = false ∧ c ≠ '.' ∧ c ≠ 'e' ∧ c ≠ 'E'

theorem endsNumber_nil : EndsNumber [] := by simp [EndsNumber]

private theorem toDigits_head? (n : Nat) (h : (Nat.toDigits 10 n).head? = some '0') :
    (Nat.toDigits 10 n).length = 1 := by
  induction n using Nat.strongRecOn with
  | _ n ih =>
    by_cases hn : n < 10
    · simp [Nat.toDigits_of_lt_base hn]
    -- A leading zero would lead the digits of `n / 10` too, which therefore is zero.
    · exfalso
      have hlow : n / 10 < n := by omega
      have hhead : (Nat.toDigits 10 n).head? = (Nat.toDigits 10 (n / 10)).head? := by
        rw [Nat.toDigits_of_base_le (by decide) (by omega)]
        cases hcons : Nat.toDigits 10 (n / 10) with
        | nil => exact absurd hcons Nat.toDigits_ne_nil
        | cons c cs => rfl
      rw [hhead] at h
      have hone := ih (n / 10) hlow h
      by_cases hten : n / 10 < 10
      · rw [Nat.toDigits_of_lt_base hten] at h
        have hpos : 1 ≤ n / 10 := by omega
        have : ∀ k < 10, 1 ≤ k → [Nat.digitChar k].head? ≠ some '0' := by decide
        exact this _ hten hpos h
      · rw [Nat.toDigits_of_base_le (by decide) (by omega), List.length_append] at hone
        have hpos : 0 < (Nat.toDigits 10 (n / 10 / 10)).length := Nat.length_toDigits_pos
        simp at hone

private theorem digitsValue_toDigits (n : Nat) : digitsValue (Nat.toDigits 10 n) = n := by
  have h : ∀ (ds : List Char) (k : Nat), ds.foldl (fun n d => n * 10 + (d.toNat - '0'.toNat)) k =
      Nat.ofDigitChars 10 ds k := by
    intro ds
    induction ds with
    | nil => exact fun _ => rfl
    | cons d ds ih =>
      intro k
      rw [List.foldl_cons, ih, Nat.ofDigitChars_cons, Nat.mul_comm]
  rw [digitsValue, h, Nat.ofDigitChars_ten_toDigits]

private theorem digits_toDigits (n : Nat) {rest : List Char} (h : EndsNumber rest) :
    digits (Nat.toDigits 10 n ++ rest) = .ok (Nat.toDigits 10 n, rest) := by
  have hall : ∀ c ∈ Nat.toDigits 10 n, c.isDigit := fun c hc =>
    Nat.isDigit_of_mem_toDigits (by decide) (by decide) hc
  have hstop : rest.takeWhile Char.isDigit = [] ∧ rest.dropWhile Char.isDigit = rest := by
    cases rest with
    | nil => exact ⟨rfl, rfl⟩
    | cons c rest => simp [(h c (by simp)).1]
  rw [digits, List.takeWhile_append_of_pos hall, List.dropWhile_append_of_pos hall, hstop.1, hstop.2, List.append_nil]
  split
  · rename_i hnil
    exact absurd hnil Nat.toDigits_ne_nil
  · rfl

private theorem unsignedText_toDigits (negative : Bool) (n : Nat) {rest : List Char} (h : EndsNumber rest) :
    unsignedText negative (Nat.toDigits 10 n ++ rest) = .ok (⟨negative, Nat.toDigits 10 n, none, none⟩, rest) := by
  have hzero : ¬((Nat.toDigits 10 n).head? = some '0' ∧ (Nat.toDigits 10 n).length ≠ 1) := fun hz =>
    hz.2 (toDigits_head? n hz.1)
  have hfraction : fraction rest = .ok (none, rest) := by
    cases rest with
    | nil => rfl
    | cons c rest =>
      have hc := h c (by simp)
      rw [fraction]
      rintro rest ⟨⟩
      exact hc.2.1 rfl
  have hexponent : exponent rest = .ok (none, rest) := by
    cases rest with
    | nil => rfl
    | cons c rest =>
      have hc := h c (by simp)
      simp [exponent, hc.2.2.1, hc.2.2.2]
  rw [unsignedText, digits_toDigits n h]
  show (if _ then _ else _) = _
  rw [if_neg hzero, hfraction]
  show (exponent rest >>= _) = _
  rw [hexponent]
  rfl

private theorem toDigits_cons (n : Nat) : ∃ c cs, Nat.toDigits 10 n = c :: cs ∧ c.isDigit := by
  cases h : Nat.toDigits 10 n with
  | nil => exact absurd h Nat.toDigits_ne_nil
  | cons c cs =>
    exact ⟨c, cs, rfl, Nat.isDigit_of_mem_toDigits (b := 10) (n := n) (by decide) (by decide) (by simp [h])⟩

section
variable (n : Int) (hn : -0x8000000000000000 ≤ n ∧ n < 0x10000000000000000)

/-- A printed whole number begins with a digit or a minus sign. -/
theorem printNumber_cons :
    ∃ c cs, printNumber (.int n hn) = c :: cs ∧ (c.isDigit ∨ c = '-') := by
  rw [printNumber]
  split
  · exact ⟨'-', _, rfl, .inr rfl⟩
  · obtain ⟨c, cs, hcs, hc⟩ := toDigits_cons n.natAbs
    exact ⟨c, cs, hcs, .inl hc⟩

private theorem value?_toDigits :
    NumberText.value? ⟨decide (n < 0), Nat.toDigits 10 n.natAbs, none, none⟩ = some (.int n hn) := by
  have hsigned : (if decide (n < 0) then -(n.natAbs : Int) else n.natAbs) = n := by
    by_cases h : n < 0
    · rw [decide_eq_true h, if_pos rfl]
      omega
    · rw [decide_eq_false h, if_neg (by decide)]
      omega
  have hzero : (decide (n < 0) && (n.natAbs : Int) == 0) = false := by
    by_cases h : n < 0
    · rw [decide_eq_true h, Bool.true_and, beq_eq_false_iff_ne]
      omega
    · rw [decide_eq_false h, Bool.false_and]
  simp only [NumberText.value?, digitsValue_toDigits, Option.isSome_none, Bool.or_self, Bool.false_eq_true, if_false,
    hzero, hsigned, dif_pos hn]

theorem number_print {rest : List Char} (h : EndsNumber rest) :
    number (printNumber (.int n hn) ++ rest) = .ok (.int n hn, rest) := by
  have htext : numberText (printNumber (.int n hn) ++ rest) =
      .ok (⟨decide (n < 0), Nat.toDigits 10 n.natAbs, none, none⟩, rest) := by
    by_cases hneg : n < 0
    · rw [printNumber, if_pos hneg, List.cons_append, numberText, unsignedText_toDigits true n.natAbs h,
        decide_eq_true hneg]
    · obtain ⟨c, cs, hcs, hc⟩ := toDigits_cons n.natAbs
      have hminus : c ≠ '-' := by
        rintro rfl
        cases hc
      have hunsigned : numberText (c :: (cs ++ rest)) = unsignedText false (c :: (cs ++ rest)) := by
        rw [numberText]
        rintro rest ⟨⟩
        exact hminus rfl
      rw [printNumber, if_neg hneg, hcs, List.cons_append, hunsigned, ← List.cons_append, ← hcs,
        unsignedText_toDigits false n.natAbs h, decide_eq_false hneg]
  simp only [number, htext, bind, Except.bind, value?_toDigits n hn]

end

end ApiClient.Json
