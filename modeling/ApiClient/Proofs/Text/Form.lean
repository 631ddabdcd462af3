import ApiClient.Proofs.Text.Percent

/-!
# Form-encoded text that is encoded again

A query is percent-encoded once more on its way: what may not stand in it is escaped, and what stays includes the
separators, `+`, `%` and the hexadecimal digits.  Form decoding does not see the difference (`decode_encode`), because
an escaped character and the character itself stand for the same bytes (`decodeBytes_flatMap`) and pieces are cut at
the same places (`splitBy_encode`, `splitFirst_encode`).
-/

namespace ApiClient.Text

/-! ### Cutting -/

theorem splitBy_append_of_none {p : Char → Bool} {piece : List Char} (h : ∀ c ∈ piece, p c = false) (cs : List Char) :
    splitBy p (piece ++ cs) = (splitBy p cs).modifyHead (piece ++ ·) := by
  induction piece with
  | nil =>
    cases hcs : splitBy p cs with
    | nil => exact absurd hcs (splitBy_ne_nil p cs)
    | cons q qs => simp [hcs]
  | cons c piece ih =>
    have hc := h c List.mem_cons_self
    have hpiece := ih fun d hd => h d (List.mem_cons_of_mem _ hd)
    rw [List.cons_append, splitBy, hc, hpiece]
    cases hcs : splitBy p cs with
    | nil => exact absurd hcs (splitBy_ne_nil p cs)
    | cons q qs => simp

theorem splitFirst_append_of_not_mem {sep : Char} {piece : List Char} (h : sep ∉ piece) (cs : List Char) :
    splitFirst sep (piece ++ cs) = (piece ++ (splitFirst sep cs).1, (splitFirst sep cs).2) := by
  induction piece with
  | nil => rfl
  | cons c piece ih =>
    rw [List.mem_cons, not_or] at h
    have hne : c ≠ sep := fun e => h.1 e.symm
    rw [List.cons_append, splitFirst, if_neg hne, ih h.2]
    rfl

namespace Percent

section
variable {keep : Char → Bool} {sep : Char}

private theorem encodeChar_no_separator (hpercent : sep ≠ '%') (hhex : ¬IsUpperHex sep) {c : Char} (hc : c ≠ sep) :
    sep ∉ encodeChar keep c := by
  unfold encodeChar
  split
  · rw [List.mem_singleton]
    exact fun h => hc h.symm
  · intro h
    obtain ⟨b, -, hb⟩ := List.mem_flatMap.1 h
    rcases mem_escapeByte hb with h | h
    · exact hpercent h
    · exact hhex h

/-- A text is cut at the same places before and after it is encoded, if the separator stays. -/
theorem splitBy_encode (hkeep : keep sep = true) (hpercent : sep ≠ '%') (hhex : ¬IsUpperHex sep) (cs : List Char) :
    splitBy (fun c => c == sep) (encode keep cs) = (splitBy (fun c => c == sep) cs).map (encode keep) := by
  induction cs with
  | nil => rfl
  | cons c cs ih =>
    have hcons : encode keep (c :: cs) = encodeChar keep c ++ encode keep cs := List.flatMap_cons
    by_cases hc : c = sep
    · subst hc
      have hchar : encodeChar keep c = [c] := by rw [encodeChar, if_pos hkeep]
      rw [hcons, hchar, List.singleton_append, splitBy, splitBy, ih]
      simp [encode]
    · have hnone : ∀ d ∈ encodeChar keep c, (d == sep) = false := by
        intro d hd
        rw [beq_eq_false_iff_ne]
        rintro rfl
        exact encodeChar_no_separator hpercent hhex hc hd
      rw [hcons, splitBy_append_of_none hnone, ih, splitBy, beq_eq_false_iff_ne.2 hc]
      cases hcs : splitBy (fun c => c == sep) cs with
      | nil => exact absurd hcs (splitBy_ne_nil _ cs)
      | cons q qs => simp [encode]

theorem splitFirst_encode (hkeep : keep sep = true) (hpercent : sep ≠ '%') (hhex : ¬IsUpperHex sep) (cs : List Char) :
    splitFirst sep (encode keep cs) =
      (encode keep (splitFirst sep cs).1, (splitFirst sep cs).2.map (encode keep)) := by
  induction cs with
  | nil => rfl
  | cons c cs ih =>
    have hcons : encode keep (c :: cs) = encodeChar keep c ++ encode keep cs := List.flatMap_cons
    by_cases hc : c = sep
    · subst hc
      have hchar : encodeChar keep c = [c] := by rw [encodeChar, if_pos hkeep]
      rw [hcons, hchar, List.singleton_append, splitFirst, if_pos rfl, splitFirst, if_pos rfl]
      rfl
    · rw [hcons, splitFirst_append_of_not_mem (encodeChar_no_separator hpercent hhex hc), ih, splitFirst, if_neg hc]
      rfl

end

/-! ### Bytes -/

/-- A `%` that two digits do not follow stands for itself. -/
private theorem decodeBytes_percent {cs : List Char}
    (h : ∀ a b rest, cs = a :: b :: rest → Hex.value? a = none ∨ Hex.value? b = none) :
    decodeBytes ('%' :: cs) = Utf8.encodeChar '%' ++ decodeBytes cs := by
  match cs with
  | [] => rfl
  | [a] => rfl
  | a :: b :: rest =>
    rw [decodeBytes]
    rcases h a b rest rfl with ha | hb
    · rw [ha]
    · rw [hb]
      cases Hex.value? a <;> rfl

private theorem escapes_cons (c : Char) : ∃ cs, (Utf8.encodeChar c).flatMap escapeByte = '%' :: cs := by
  unfold Utf8.encodeChar
  simp only
  repeat' split
  all_goals exact ⟨_, rfl⟩

theorem encodeChar_ne_nil (keep : Char → Bool) (c : Char) : encodeChar keep c ≠ [] := by
  unfold encodeChar
  split
  · simp
  · obtain ⟨xs, hxs⟩ := escapes_cons c
    simp [hxs]

section
variable {spell : Char → List Char} {meant : Char → Char}
  (h : ∀ c, spell c = [meant c] ∨
    spell c = (Utf8.encodeChar (meant c)).flatMap escapeByte ∧ meant c ≠ '%' ∧ Hex.value? (meant c) = none)
include h

private theorem spell_of_digit {c : Char} (hc : Hex.value? (meant c) ≠ none) : spell c = [meant c] :=
  (h c).resolve_right fun hesc => hc hesc.2.2

/-- Where no digit is meant, none comes first in what is written. -/
private theorem value?_head_spell {c a : Char} {xs ys : List Char} (hc : Hex.value? (meant c) = none)
    (heq : spell c ++ xs = a :: ys) : Hex.value? a = none := by
  rcases h c with hsame | ⟨hesc, -⟩
  · rw [hsame] at heq
    cases heq
    exact hc
  · obtain ⟨zs, hzs⟩ := escapes_cons (meant c)
    rw [hesc, hzs] at heq
    cases heq
    decide

/-- Where no two digits are meant, no two come first in what is written. -/
private theorem no_digits_flatMap {cs : List Char}
    (hmeant : ∀ a b xs, cs.map meant = a :: b :: xs → Hex.value? a = none ∨ Hex.value? b = none) :
    ∀ a b xs, cs.flatMap spell = a :: b :: xs → Hex.value? a = none ∨ Hex.value? b = none := by
  intro a b xs heq
  cases cs with
  | nil => cases heq
  | cons c cs =>
    rw [List.flatMap_cons] at heq
    by_cases hc : Hex.value? (meant c) = none
    · exact .inl (value?_head_spell h hc heq)
    · rw [spell_of_digit h hc, List.singleton_append, List.cons.injEq] at heq
      obtain ⟨rfl, heq⟩ := heq
      cases cs with
      | nil => cases heq
      | cons d cs => exact .inr (value?_head_spell h ((hmeant _ _ _ rfl).resolve_left hc) heq)

/-- A text in which every character stands for itself or is escaped stands for the bytes of the characters that are
meant, if no `%` and no digit is escaped. -/
theorem decodeBytes_flatMap (cs : List Char) : decodeBytes (cs.flatMap spell) = decodeBytes (cs.map meant) := by
  -- The induction is on the length: a `%` and two digits are read in one step.
  induction hn : cs.length using Nat.strongRecOn generalizing cs with
  | _ n ih =>
  have hrest : ∀ rest : List Char, rest.length < n →
      decodeBytes (rest.flatMap spell) = decodeBytes (rest.map meant) :=
    fun rest hlt => ih rest.length hlt rest rfl
  cases cs with
  | nil => rfl
  | cons c rest =>
    rw [List.length_cons] at hn
    rw [List.flatMap_cons, List.map_cons]
    by_cases hpercent : meant c = '%'
    · have hc : spell c = ['%'] := by
        rw [← hpercent]
        exact (h c).resolve_right fun hesc => hesc.2.1 hpercent
      rw [hc, hpercent, List.singleton_append]
      by_cases hnone : ∀ a b xs, rest.map meant = a :: b :: xs → Hex.value? a = none ∨ Hex.value? b = none
      · rw [decodeBytes_percent hnone, decodeBytes_percent (no_digits_flatMap h hnone), hrest rest (by omega)]
      · simp only [Classical.not_forall, not_or] at hnone
        obtain ⟨_, _, _, heq, ha, hb⟩ := hnone
        obtain ⟨a, rest, rfl, rfl, htail⟩ := List.map_eq_cons_iff.1 heq
        obtain ⟨b, rest, rfl, rfl, rfl⟩ := List.map_eq_cons_iff.1 htail
        rw [List.length_cons, List.length_cons] at hn
        have htail := hrest rest (by omega)
        rw [List.flatMap_cons, List.flatMap_cons, spell_of_digit h ha, spell_of_digit h hb]
        obtain ⟨high, hhigh⟩ := Option.ne_none_iff_exists'.1 ha
        obtain ⟨low, hlow⟩ := Option.ne_none_iff_exists'.1 hb
        simp only [List.singleton_append, List.map_cons, decodeBytes, hhigh, hlow, htail]
    · rcases h c with hsame | ⟨hesc, -⟩
      · rw [hsame, List.singleton_append, decodeBytes_cons hpercent, decodeBytes_cons hpercent, hrest rest (by omega)]
      · rw [hesc, decodeBytes_escapes, decodeBytes_cons hpercent, hrest rest (by omega)]

end

end Percent

/-! ### Pairs -/

namespace Form

open Percent

variable {keep : Char → Bool} (hkeep : ∀ c, c ∈ ['%', '&', '=', '+'] ∨ Hex.value? c ≠ none → keep c = true)
include hkeep

theorem decodeComponent_encode_of_kept (cs : List Char) : decodeComponent (encode keep cs) = decodeComponent cs := by
  have hplus : keep '+' = true := hkeep '+' (by decide)
  have hmap : ((encode keep cs).map fun c => if c = '+' then ' ' else c) =
      cs.flatMap fun c => if c = '+' then [' '] else encodeChar keep c := by
    rw [encode, List.map_flatMap]
    congr 1
    funext c
    by_cases hc : c = '+'
    · simp [hc, encodeChar, hplus]
    · have hid : ∀ d ∈ encodeChar keep c, (if d = '+' then ' ' else d) = d := by
        intro d hd
        refine if_neg ?_
        rintro rfl
        exact encodeChar_no_separator (by decide) (by decide) hc hd
      rw [if_neg hc, List.map_congr_left hid, List.map_id']
  have hspell : ∀ c, (if c = '+' then [' '] else encodeChar keep c) = [if c = '+' then ' ' else c] ∨
      (if c = '+' then [' '] else encodeChar keep c) =
          (Utf8.encodeChar (if c = '+' then ' ' else c)).flatMap escapeByte ∧
        (if c = '+' then ' ' else c) ≠ '%' ∧ Hex.value? (if c = '+' then ' ' else c) = none := by
    intro c
    by_cases hc : c = '+'
    · simp [hc]
    · by_cases hkept : keep c = true
      · simp [hc, encodeChar, hkept]
      · have hpercent : c ≠ '%' := by
          rintro rfl
          exact hkept (hkeep '%' (by decide))
        have hdigit : Hex.value? c = none :=
          Decidable.byContradiction fun hdigit => hkept (hkeep c (.inr hdigit))
        simp only [if_neg hc]
        exact .inr ⟨by rw [encodeChar, if_neg hkept], hpercent, hdigit⟩
  rw [decodeComponent, decodeComponent, hmap, decodeBytes_flatMap hspell]

/-- Encoding a text again does not change the pairs in it. -/
theorem decode_encode (cs : List Char) : decode (encode keep cs) = decode cs := by
  have hpiece : ∀ piece, (encode keep piece).isEmpty = piece.isEmpty := by
    intro piece
    cases piece with
    | nil => rfl
    | cons c rest =>
      simp [encode, encodeChar_ne_nil]
  rw [decode, splitBy_encode (hkeep '&' (by decide)) (by decide) (by decide), List.filter_map, List.map_map, decode]
  have hfilter : ((fun piece => !piece.isEmpty) ∘ encode keep) = fun piece : List Char => !piece.isEmpty := by
    funext piece
    rw [Function.comp, hpiece]
  rw [hfilter]
  refine List.map_congr_left fun piece _ => ?_
  rw [Function.comp, splitFirst_encode (hkeep '=' (by decide)) (by decide) (by decide)]
  simp only [decodeComponent_encode_of_kept hkeep]
  cases (splitFirst '=' piece).2 with
  | none => rfl
  | some value => simp [decodeComponent_encode_of_kept hkeep]

end Form

end ApiClient.Text
