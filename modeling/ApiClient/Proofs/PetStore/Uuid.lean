import ApiClient.PetStore.Uuid

/-!
# Spellings of identifiers

The spellings of an identifier are its 32 digits, the digits in groups with hyphens, and these in braces, in whatever
letter case (`Spells`).  Each of them is read as the identifier (`parse?_of_spells`), and among texts without a colon
no other text is (`parse?_eq_some_iff`).  An identifier is written in one of its spellings (`spells_toString`), with
digits and hyphens only (`mem_toString`), and that is the hyphenated one in lower case (`isCanonical_toString`).
-/

namespace ApiClient.PetStore.Uuid

open Text

/-- Characters that are some digits, each in whatever letter case. -/
def IsDigits (cs : List Char) (digits : List (Fin 16)) : Prop := cs.map Hex.value? = digits.map fun d => some d.val

instance (cs : List Char) (digits : List (Fin 16)) : Decidable (IsDigits cs digits) :=
  inferInstanceAs (Decidable (_ = _))

/-- The spellings of an identifier. -/
inductive Spells (u : Uuid) : List Char → Prop
  | digits {cs : List Char} (h : IsDigits cs u.digits) : Spells u cs
  | hyphenated {cs : List Char} (h : IsDigits cs u.digits) : Spells u (group groupSizes cs)
  | braced {cs : List Char} (h : IsDigits cs u.digits) : Spells u ('{' :: (group groupSizes cs ++ ['}']))

/-! ### Digits -/

theorem IsDigits.length_eq {cs : List Char} {digits : List (Fin 16)} (h : IsDigits cs digits) :
    cs.length = digits.length := by
  have hlength := congrArg List.length h
  rwa [List.length_map, List.length_map] at hlength

theorem IsDigits.value?_ne_none {cs : List Char} {digits : List (Fin 16)} (h : IsDigits cs digits) {c : Char}
    (hc : c ∈ cs) : Hex.value? c ≠ none := by
  have hmem : Hex.value? c ∈ digits.map fun d => some d.val := by
    have hvalue := List.mem_map_of_mem (f := Hex.value?) hc
    rwa [h] at hvalue
  obtain ⟨d, -, hd⟩ := List.mem_map.1 hmem
  rw [← hd]
  exact Option.some_ne_none d.val

private theorem digit?_eq_some_iff {c : Char} {d : Fin 16} :
    (Hex.value? c).map (Fin.ofNat 16) = some d ↔ Hex.value? c = some d.val := by
  rw [Option.map_eq_some_iff]
  constructor
  · rintro ⟨n, hn, rfl⟩
    have hlt : n < 16 := by
      have := Hex.value?_eq_some_iff.1 hn
      omega
    rw [hn, Fin.val_ofNat, Nat.mod_eq_of_lt hlt]
  · intro h
    exact ⟨d.val, h, Fin.ext (Nat.mod_eq_of_lt d.isLt)⟩

private theorem mapM_digit?_eq_some_iff {cs : List Char} {digits : List (Fin 16)} :
    cs.mapM (fun c => (Hex.value? c).map (Fin.ofNat 16)) = some digits ↔ IsDigits cs digits := by
  induction cs generalizing digits with
  | nil => cases digits <;> simp [IsDigits]
  | cons c rest ih =>
    rw [List.mapM_cons, Option.bind_eq_bind, Option.bind_eq_some_iff]
    constructor
    · rintro ⟨d, hd, h⟩
      obtain ⟨tail, htail, heq⟩ := Option.bind_eq_some_iff.1 h
      cases heq
      have hrest : rest.map Hex.value? = tail.map fun d => some d.val := ih.1 htail
      rw [IsDigits, List.map_cons, List.map_cons, digit?_eq_some_iff.1 hd, hrest]
    · intro h
      cases digits with
      | nil => cases h
      | cons d tail =>
        obtain ⟨hd, hrest⟩ := List.cons.inj h
        refine ⟨d, digit?_eq_some_iff.2 hd, ?_⟩
        rw [ih.2 hrest]
        rfl

theorem ofDigits?_eq_some_iff {cs : List Char} {u : Uuid} : ofDigits? cs = some u ↔ IsDigits cs u.digits := by
  rw [ofDigits?, Option.bind_eq_bind, Option.bind_eq_some_iff]
  constructor
  · rintro ⟨digits, hdigits, h⟩
    split at h
    · cases h
      exact mapM_digit?_eq_some_iff.1 hdigits
    · cases h
  · intro h
    exact ⟨u.digits, mapM_digit?_eq_some_iff.2 h, dif_pos u.length_eq⟩

private theorem ofDigits?_of_mem {cs : List Char} {c : Char} (hc : c ∈ cs) (hvalue : Hex.value? c = none) :
    ofDigits? cs = none := by
  rw [Option.eq_none_iff_forall_ne_some]
  intro u hu
  exact (ofDigits?_eq_some_iff.1 hu).value?_ne_none hc hvalue

/-! ### Groups -/

theorem mem_group {sizes : List Nat} {cs : List Char} {c : Char} (h : c ∈ group sizes cs) : c = '-' ∨ c ∈ cs := by
  fun_induction group sizes cs with
  | case1 cs => exact .inr h
  | case2 n cs => exact .inr h
  | case3 n sizes cs hne ih =>
    rcases List.mem_append.1 h with h | h
    · exact .inr (List.mem_of_mem_take h)
    · rcases List.mem_cons.1 h with rfl | h
      · exact .inl rfl
      · exact (ih h).imp_right List.mem_of_mem_drop

private theorem hyphen_mem_group (cs : List Char) : '-' ∈ group groupSizes cs :=
  List.mem_append_right _ List.mem_cons_self

private theorem group_cons {sizes : List Nat} (hne : sizes ≠ []) {n : Nat} {xs : List Char} (hxs : xs.length = n)
    (ys : List Char) : group (n :: sizes) (xs ++ ys) = xs ++ '-' :: group sizes ys := by
  rw [group, List.take_left' hxs, List.drop_left' hxs]
  exact hne

theorem ungroup?_group {sizes : List Nat} {cs : List Char} (h : cs.length = sizes.foldr (· + ·) 0) :
    ungroup? sizes (group sizes cs) = some cs := by
  fun_induction group sizes cs with
  | case1 cs =>
    obtain rfl : cs = [] := List.eq_nil_of_length_eq_zero h
    rfl
  | case2 n cs =>
    rw [ungroup?, if_pos (by simpa using h)]
  | case3 n sizes cs hne ih =>
    rw [List.foldr_cons] at h
    have htake : (cs.take n).length = n := by
      rw [List.length_take]
      omega
    have hrest := ih (by rw [List.length_drop]; omega)
    rw [ungroup?, List.drop_left' htake, List.take_left' htake]
    · simp only [hrest, Option.map_some, List.take_append_drop]
    · exact hne

theorem eq_group_of_ungroup? {sizes : List Nat} {cs ds : List Char} (h : ungroup? sizes cs = some ds) :
    cs = group sizes ds := by
  fun_induction ungroup? sizes cs generalizing ds with
  | case1 cs hempty =>
    cases h
    exact List.isEmpty_iff.1 hempty
  | case2 => cases h
  | case3 =>
    cases h
    rfl
  | case4 => cases h
  | case5 n sizes cs hne rest hdrop ih =>
    obtain ⟨tail, htail, rfl⟩ := Option.map_eq_some_iff.1 h
    have htake : (cs.take n).length = n := by
      have hlength := congrArg List.length hdrop
      rw [List.length_drop, List.length_cons] at hlength
      rw [List.length_take]
      omega
    rw [group_cons hne htake, ← ih htail, ← hdrop, List.take_append_drop]
  | case6 => cases h

/-! ### The forms -/

theorem ofHyphenated?_eq_some_iff {cs : List Char} {u : Uuid} :
    ofHyphenated? cs = some u ↔ ∃ ds, IsDigits ds u.digits ∧ cs = group groupSizes ds := by
  rw [ofHyphenated?, Option.bind_eq_bind, Option.bind_eq_some_iff]
  constructor
  · rintro ⟨ds, hds, hu⟩
    exact ⟨ds, ofDigits?_eq_some_iff.1 hu, eq_group_of_ungroup? hds⟩
  · rintro ⟨ds, hds, rfl⟩
    have hlength : ds.length = groupSizes.foldr (· + ·) 0 := by rw [hds.length_eq, u.length_eq]; rfl
    exact ⟨ds, ungroup?_group hlength, ofDigits?_eq_some_iff.2 hds⟩

private theorem ofHyphenated?_of_mem {cs : List Char} {c : Char} (hc : c ∈ cs) (hvalue : Hex.value? c = none)
    (hhyphen : c ≠ '-') : ofHyphenated? cs = none := by
  rw [Option.eq_none_iff_forall_ne_some]
  intro u hu
  obtain ⟨ds, hds, rfl⟩ := ofHyphenated?_eq_some_iff.1 hu
  rcases mem_group hc with h | h
  · exact hhyphen h
  · exact hds.value?_ne_none h hvalue

theorem unbrace?_eq_some_iff {cs inner : List Char} : unbrace? cs = some inner ↔ cs = '{' :: (inner ++ ['}']) := by
  unfold unbrace?
  constructor
  · intro h
    split at h
    · rename_i rest
      split at h
      · rename_i hlast
        cases h
        obtain ⟨ys, rfl⟩ := List.getLast?_eq_some_iff.1 hlast
        rw [List.dropLast_concat]
      · cases h
    · cases h
  · rintro rfl
    simp

private theorem unqualify?_of_not_mem {cs : List Char} (h : ':' ∉ cs) : unqualify? cs = none := by
  refine if_neg fun hname => h ?_
  have hlower : ((cs.take "urn:uuid:".length).map Char.toLower) = ['u', 'r', 'n', ':', 'u', 'u', 'i', 'd', ':'] := by
    have hlists := congrArg String.toList hname
    rwa [lower, String.toList_ofList, String.toList_ofList] at hlists
  have hmem : ':' ∈ (cs.take "urn:uuid:".length).map Char.toLower := by
    rw [hlower]
    decide
  obtain ⟨c, hc, hcolon⟩ := List.mem_map.1 hmem
  obtain rfl : c = ':' := (toLower_eq_iff (by decide)).1 hcolon
  exact List.mem_of_mem_take hc

theorem Spells.ne_nil {u : Uuid} {cs : List Char} (h : Spells u cs) : cs ≠ [] := by
  cases h with
  | digits h =>
    rintro rfl
    have hlength := h.length_eq.trans u.length_eq
    cases hlength
  | hyphenated h => exact List.ne_nil_of_mem (hyphen_mem_group _)
  | braced h => exact List.cons_ne_nil _ _

theorem Spells.value?_ne_none_or {u : Uuid} {cs : List Char} (h : Spells u cs) {c : Char} (hc : c ∈ cs) :
    Hex.value? c ≠ none ∨ c ∈ ['-', '{', '}'] := by
  cases h with
  | digits h => exact .inl (h.value?_ne_none hc)
  | hyphenated h =>
    rcases mem_group hc with rfl | hc
    · exact .inr (by decide)
    · exact .inl (h.value?_ne_none hc)
  | braced h =>
    rcases List.mem_cons.1 hc with rfl | hc
    · exact .inr (by decide)
    rcases List.mem_append.1 hc with hc | hc
    · rcases mem_group hc with rfl | hc
      · exact .inr (by decide)
      · exact .inl (h.value?_ne_none hc)
    · obtain rfl := List.mem_singleton.1 hc
      exact .inr (by decide)

theorem Spells.not_mem {u : Uuid} {cs : List Char} (h : Spells u cs) {c : Char}
    (hc : Hex.value? c = none ∧ c ∉ ['-', '{', '}']) : c ∉ cs := by
  intro hmem
  rcases h.value?_ne_none_or hmem with hvalue | hother
  · exact hvalue hc.1
  · exact hc.2 hother

theorem parse?_of_spells {u : Uuid} {s : String} (h : Spells u s.toList) : parse? s = some u := by
  unfold parse?
  dsimp only
  generalize s.toList = cs at h
  cases h with
  | digits h => rw [ofDigits?_eq_some_iff.2 h, Option.some_or]
  | hyphenated h =>
    -- The hyphens rule out the form without them, which is tried first.
    rw [ofDigits?_of_mem (hyphen_mem_group _) (by decide), ofHyphenated?_eq_some_iff.2 ⟨_, h, rfl⟩, Option.none_or,
      Option.some_or]
  | braced h =>
    -- So does the brace, and the hyphenated form as well.
    rw [ofDigits?_of_mem List.mem_cons_self (by decide),
      ofHyphenated?_of_mem List.mem_cons_self (by decide) (by decide), unbrace?_eq_some_iff.2 rfl,
      Option.bind_eq_bind, Option.bind_some, ofHyphenated?_eq_some_iff.2 ⟨_, h, rfl⟩]
    rfl

theorem parse?_eq_some_iff {u : Uuid} {s : String} (hcolon : ':' ∉ s.toList) :
    parse? s = some u ↔ Spells u s.toList := by
  refine ⟨fun h => ?_, parse?_of_spells⟩
  unfold parse? at h
  dsimp only at h
  rw [unqualify?_of_not_mem hcolon] at h
  rcases Option.or_eq_some_iff.1 h with h | ⟨-, h⟩
  · exact .digits (ofDigits?_eq_some_iff.1 h)
  rcases Option.or_eq_some_iff.1 h with h | ⟨-, h⟩
  · obtain ⟨ds, hds, heq⟩ := ofHyphenated?_eq_some_iff.1 h
    rw [heq]
    exact .hyphenated hds
  rcases Option.or_eq_some_iff.1 h with h | ⟨-, h⟩
  · obtain ⟨inner, hinner, h⟩ := Option.bind_eq_some_iff.1 h
    obtain ⟨ds, hds, rfl⟩ := ofHyphenated?_eq_some_iff.1 h
    rw [unbrace?_eq_some_iff.1 hinner]
    exact .braced hds
  · cases h

/-! ### The written form -/

theorem toList_toString (u : Uuid) :
    u.toString.toList = group groupSizes (u.digits.map fun d => Hex.lowerDigit d.val) := by
  rw [toString, String.toList_ofList]

private theorem isDigits_lowerDigit (digits : List (Fin 16)) :
    IsDigits (digits.map fun d => Hex.lowerDigit d.val) digits := by
  rw [IsDigits, List.map_map]
  exact List.map_congr_left fun d _ => Hex.value?_lowerDigit d.val d.isLt

theorem length_toString (u : Uuid) : u.toString.length = 36 := by
  have hdigits := u.length_eq
  rw [← String.length_toList, toList_toString]
  simp [group, groupSizes, hdigits]

theorem spells_toString (u : Uuid) : Spells u u.toString.toList := by
  rw [toList_toString]
  exact .hyphenated (isDigits_lowerDigit u.digits)

theorem mem_toString {u : Uuid} {c : Char} (h : c ∈ u.toString.toList) :
    c = '-' ∨ ∃ d : Fin 16, Hex.lowerDigit d.val = c := by
  rw [toList_toString] at h
  rcases mem_group h with rfl | h
  · exact .inl rfl
  · obtain ⟨d, -, hd⟩ := List.mem_map.1 h
    exact .inr ⟨d, hd⟩

/-- The text is five groups of 8, 4, 4, 4 and 12 digits with hyphens in between, and the digits are those of the
identifier in lower case. -/
def IsCanonical (u : Uuid) (s : String) : Prop :=
  ∃ groups : List (List Char), groups.map List.length = [8, 4, 4, 4, 12] ∧
    groups.flatten = (u.digits.map fun d => Hex.lowerDigit d.val) ∧ s.toList = ['-'].intercalate groups

theorem isCanonical_toString (u : Uuid) : IsCanonical u u.toString := by
  obtain ⟨cs, hcs⟩ : ∃ cs, cs = u.digits.map fun d => Hex.lowerDigit d.val := ⟨_, rfl⟩
  have hlength : cs.length = 32 := by rw [hcs, List.length_map, u.length_eq]
  refine ⟨[cs.take 8, (cs.drop 8).take 4, (cs.drop 12).take 4, (cs.drop 16).take 4, cs.drop 20], ?_, ?_, ?_⟩
  · simp [hlength]
  · have hnext : ∀ m n, (cs.drop m).take n ++ cs.drop (m + n) = cs.drop m := fun m n => by
      rw [← List.drop_drop, List.take_append_drop]
    rw [List.flatten_cons, List.flatten_cons, List.flatten_cons, List.flatten_cons, List.flatten_singleton,
      hnext 16 4, hnext 12 4, hnext 8 4, List.take_append_drop, hcs]
  · rw [toList_toString, ← hcs]
    simp [group, groupSizes, List.intercalate]

theorem parse?_toString (u : Uuid) : parse? u.toString = some u := parse?_of_spells (spells_toString u)

end ApiClient.PetStore.Uuid
