import ApiClient.PetStore.Multipart
import ApiClient.Proofs.Text.Utf8
import Mathlib.Data.List.Infix

/-!
# Form data is read back

The reader looks for marks: the boundary, the empty line behind a header, and the boundary at the start of a line.  A
mark is found where it was written if its first byte does not occur in what stands before it (`splitAt?_of_not_mem`),
or if the byte does not occur again in the mark and the mark is no part of what stands before it
(`splitAt?_of_not_infix`).  So framed fields are read back from their body (`decode?_encode`).
-/

namespace ApiClient.PetStore.Multipart

open Text.Utf8 (bytes)

/-! ### Marks -/

section
variable {mark xs : List UInt8}

/-- A mark is found where it was written if it does not begin earlier. -/
private theorem splitAt?_of_first {rest : List UInt8}
    (h : ∀ zs, zs ≠ [] → zs <:+ xs → ¬mark <+: zs ++ (mark ++ rest)) :
    splitAt? mark (xs ++ (mark ++ rest)) = some (xs, rest) := by
  induction xs with
  | nil =>
    rw [List.nil_append]
    have hdrop : (mark ++ rest).drop mark.length = rest := List.drop_left
    cases hall : mark ++ rest with
    | nil =>
      obtain ⟨rfl, rfl⟩ := List.append_eq_nil_iff.1 hall
      rfl
    | cons b bs =>
      have hprefix : mark.isPrefixOf (b :: bs) = true :=
        List.isPrefixOf_iff_prefix.2 (hall ▸ List.prefix_append mark rest)
      rw [splitAt?, if_pos hprefix, ← hall, hdrop]
  | cons x xs ih =>
    have hnot : ¬mark.isPrefixOf (x :: (xs ++ (mark ++ rest))) = true := fun hprefix =>
      h (x :: xs) (List.cons_ne_nil x xs) (List.suffix_refl _) (List.isPrefixOf_iff_prefix.1 hprefix)
    have hrest := ih fun zs hne hzs => h zs hne (hzs.trans (List.suffix_cons x xs))
    rw [List.cons_append, splitAt?, if_neg hnot, hrest]
    rfl

theorem splitAt?_of_not_mem {b : UInt8} (hb : b ∉ xs) (rest : List UInt8) :
    splitAt? (b :: mark) (xs ++ (b :: mark ++ rest)) = some (xs, rest) := by
  refine splitAt?_of_first fun zs hne hzs hprefix => ?_
  cases zs with
  | nil => exact hne rfl
  | cons z zs =>
    obtain ⟨rfl, -⟩ := List.cons_prefix_cons.1 hprefix
    exact hb (hzs.subset List.mem_cons_self)

theorem splitAt?_of_not_infix {b : UInt8} (hb : b ∉ mark) (hmark : ¬b :: mark <:+: xs) (rest : List UInt8) :
    splitAt? (b :: mark) (xs ++ (b :: mark ++ rest)) = some (xs, rest) := by
  refine splitAt?_of_first fun zs hne hzs hprefix => ?_
  rcases List.prefix_or_prefix_of_prefix hprefix (List.prefix_append zs _) with hwithin | hacross
  · exact hmark (hwithin.isInfix.trans hzs.isInfix)
  -- The mark would end behind `zs`, where the other one begins, so its first byte would come again in it.
  · obtain ⟨ys, hys⟩ := hacross
    rw [← hys, List.prefix_append_right_inj, hys] at hprefix
    cases zs with
    | nil => exact hne rfl
    | cons z zs =>
      have hbegin : z = b ∧ zs ++ ys = mark := by simpa using hys
      obtain ⟨rfl, rfl⟩ := hbegin
      cases ys with
      | nil =>
        rw [List.append_nil] at hmark
        exact hmark hzs.isInfix
      | cons y ys =>
        obtain ⟨rfl, -⟩ := List.cons_prefix_cons.1 hprefix
        exact hb (List.mem_append_right zs List.mem_cons_self)

end

/-! ### Parts -/

/-- The header of a part. -/
def header (name : String) : List UInt8 := bytes (nameLead ++ name ++ "\"")

/-- What follows the first boundary of a body. -/
def afterDelimiter (boundary : String) : List (String × String) → List UInt8
  | [] => bytes "--" ++ lineEnd
  | f :: rest =>
    lineEnd ++ (header f.1 ++ (lineEnd ++ lineEnd ++ (bytes f.2 ++ (lineEnd ++ delimiter boundary ++
      afterDelimiter boundary rest))))

theorem encode_eq (boundary : String) {fields : List (String × String)} (hne : fields ≠ []) :
    encode boundary fields = delimiter boundary ++ afterDelimiter boundary fields := by
  have hparts : ∀ fields : List (String × String),
      fields.flatMap (encodeField boundary) ++ (delimiter boundary ++ (bytes "--" ++ lineEnd)) =
        delimiter boundary ++ afterDelimiter boundary fields := by
    intro fields
    induction fields with
    | nil => rfl
    | cons f rest ih =>
      rw [List.flatMap_cons, List.append_assoc, ih, encodeField, afterDelimiter, header]
      simp only [List.append_assoc]
  have hnot : ¬fields.isEmpty = true := by simpa using hne
  rw [encode, if_neg hnot, List.append_assoc, List.append_assoc]
  exact hparts fields

theorem length_le_afterDelimiter (boundary : String) (fields : List (String × String)) :
    fields.length ≤ (afterDelimiter boundary fields).length := by
  induction fields with
  | nil => exact Nat.zero_le _
  | cons f rest ih =>
    simp only [afterDelimiter, List.length_append, List.length_cons, lineEnd]
    omega

private theorem framed_of_isFramed {field : String × String} (h : isFramed field = true) :
    '"' ∉ field.1.toList ∧ '\r' ∉ field.1.toList ∧ '\r' ∉ field.2.toList ∧
      field.2.toList.head? ≠ some (Char.ofNat 0xFEFF) := by
  simpa [isFramed, and_assoc] using h

section
variable {name : String}

theorem not_mem_header (h : '\r' ∉ name.toList) : (13 : UInt8) ∉ header name := by
  intro hmem
  have hchar : '\r' ∈ (nameLead ++ name ++ "\"").toList := Text.Utf8.mem_of_mem_encode hmem (by decide)
  simp only [String.toList_append, List.mem_append] at hchar
  rcases hchar with (hlead | hname) | hquote
  · revert hlead
    decide
  · exact h hname
  · revert hquote
    decide

theorem fieldName_header (h : '"' ∉ name.toList) : fieldName (header name) = name := by
  have hmark : bytes "name=\"" = [110, 97, 109, 101, 61, 34] := by decide +kernel
  have hlead : bytes nameLead = bytes "Content-Disposition: form-data; " ++ [110, 97, 109, 101, 61, 34] := by
    decide +kernel
  have hsplit : splitAt? (bytes "name=\"") (header name) =
      some (bytes "Content-Disposition: form-data; ", bytes name ++ bytes "\"") := by
    rw [header, Text.Utf8.bytes_append, Text.Utf8.bytes_append, List.append_assoc, hlead, List.append_assoc, hmark]
    exact splitAt?_of_not_infix (by decide) (by decide +kernel) _
  have hname : ∀ b ∈ bytes name, (b != 34) = true := by
    intro b hb
    rw [bne_iff_ne]
    rintro rfl
    exact h (Text.Utf8.mem_of_mem_encode hb (by decide))
  have hquote : (bytes "\"").takeWhile (fun b => b != 34) = [] := by decide +kernel
  have htake : (bytes name ++ bytes "\"").takeWhile (fun b => b != 34) = bytes name := by
    rw [List.takeWhile_append_of_pos hname, hquote, List.append_nil]
  rw [fieldName, hsplit]
  simp only [htake]
  rw [bytes, Text.Utf8.decodeLossy_encode, String.ofList_toList]

end

theorem fieldText_bytes {s : String} (h : s.toList.head? ≠ some (Char.ofNat 0xFEFF)) : fieldText (bytes s) = s := by
  rw [fieldText, bytes, Text.Utf8.decodeLossy_encode]
  cases hs : s.toList with
  | nil =>
    rw [← String.ofList_toList (s := s), hs]
  | cons c cs =>
    have hne : c ≠ Char.ofNat 0xFEFF := by
      rintro rfl
      exact h (by rw [hs]; rfl)
    simp only [if_neg hne]
    rw [← hs, String.ofList_toList]

/-! ### Bodies -/

/-- One field is read from the part that it makes. -/
theorem decodeAfter?_cons (boundary : String) {f : String × String} (hf : isFramed f = true) (fuel : Nat)
    (rest : List (String × String)) :
    decodeAfter? boundary (fuel + 1) (afterDelimiter boundary (f :: rest)) =
      (decodeAfter? boundary fuel (afterDelimiter boundary rest)).map fun fields => f :: fields := by
  obtain ⟨hquote, hline', hbreak, horder⟩ := framed_of_isFramed hf
  obtain ⟨parts, hparts⟩ : ∃ parts, parts = bytes f.2 ++ (lineEnd ++ delimiter boundary ++
    afterDelimiter boundary rest) := ⟨_, rfl⟩
  have hheader : splitAt? (lineEnd ++ lineEnd) (header f.1 ++ (lineEnd ++ lineEnd ++ parts)) =
      some (header f.1, parts) := splitAt?_of_not_mem (not_mem_header hline') parts
  have htext : splitAt? (lineEnd ++ delimiter boundary) parts = some (bytes f.2, afterDelimiter boundary rest) := by
    have hnot : (13 : UInt8) ∉ bytes f.2 := fun hmem => hbreak (Text.Utf8.mem_of_mem_encode hmem (by decide))
    rw [hparts]
    exact splitAt?_of_not_mem hnot _
  have hafter : afterDelimiter boundary (f :: rest) = lineEnd ++ (header f.1 ++ (lineEnd ++ lineEnd ++ parts)) := by
    rw [hparts, afterDelimiter]
  have hend : ∀ bs, ¬(bytes "--").isPrefixOf (lineEnd ++ bs) = true := by
    intro bs
    rw [show bytes "--" = [45, 45] by decide, lineEnd]
    simp
  have hline : ∀ bs, lineEnd.isPrefixOf (lineEnd ++ bs) = true := fun bs =>
    List.isPrefixOf_iff_prefix.2 (List.prefix_append lineEnd bs)
  have hdrop : ∀ bs, (lineEnd ++ bs).drop 2 = bs := fun bs => rfl
  rw [hafter, decodeAfter?, if_neg (hend _), if_pos (hline _), hdrop]
  simp only [Option.bind_eq_bind, Option.bind_some, hheader, htext, fieldName_header hquote,
    fieldText_bytes horder]
  cases decodeAfter? boundary fuel (afterDelimiter boundary rest) <;> rfl

theorem decodeAfter?_afterDelimiter (boundary : String) {fields : List (String × String)}
    (h : ∀ f ∈ fields, isFramed f = true) {fuel : Nat} (hfuel : fields.length < fuel) :
    decodeAfter? boundary fuel (afterDelimiter boundary fields) = some fields := by
  induction fields generalizing fuel with
  | nil =>
    obtain ⟨n, rfl⟩ := Nat.exists_eq_succ_of_ne_zero (Nat.ne_of_gt hfuel)
    rfl
  | cons f rest ih =>
    obtain ⟨n, rfl⟩ := Nat.exists_eq_succ_of_ne_zero (Nat.ne_of_gt (Nat.zero_lt_of_lt hfuel))
    have hrest := ih (fun g hg => h g (List.mem_cons_of_mem _ hg)) (Nat.lt_of_succ_lt_succ hfuel)
    rw [decodeAfter?_cons boundary (h f List.mem_cons_self), hrest]
    rfl

/-- A body without any field has nothing to be read. -/
theorem decode?_nil (boundary : String) : decode? boundary [] = none := by
  have hmark : (delimiter boundary).isEmpty = false := by
    have hlead : bytes "--" = [45, 45] := by decide
    rw [delimiter, Text.Utf8.bytes_append, hlead]
    rfl
  rw [decode?, splitAt?, hmark]
  rfl

/-- Framed fields are read back from their body. -/
theorem decode?_encode (boundary : String) {fields : List (String × String)} (hne : fields ≠ [])
    (h : ∀ f ∈ fields, isFramed f = true) :
    decode? boundary (encode boundary fields) = some fields := by
  have hfirst : splitAt? (delimiter boundary) (delimiter boundary ++ afterDelimiter boundary fields) =
      some ([], afterDelimiter boundary fields) :=
    @splitAt?_of_first _ [] _ fun zs hzs hsuffix => absurd (List.suffix_nil.1 hsuffix) hzs
  have hfuel := Nat.lt_succ_of_le (length_le_afterDelimiter boundary fields)
  rw [encode_eq boundary hne, decode?, hfirst]
  exact decodeAfter?_afterDelimiter boundary h hfuel

end ApiClient.PetStore.Multipart
