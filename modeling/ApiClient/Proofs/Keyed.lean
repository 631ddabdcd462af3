import ApiClient.Keyed

/-!
# Tables after many insertions

After a list of pairs has been inserted into a table, a key has the value of the last pair for it (`IsLast`,
`last?_eq_some_iff`), or else the value it had before (`find?_insertAll`), and so it is in a list that is collected
(`lookup_collect`).  A table inserted into another one lies over it (`find?_insertAll_entries`).  Where every key
occurs once the order of the pairs makes no difference (`lookup_of_perm`, `collect_of_perm`).
-/

namespace ApiClient.Keyed

variable {κ ν : Type}

/-- `value` is what the last pair for `key` holds. -/
def IsLast (pairs : List (κ × ν)) (key : κ) (value : ν) : Prop :=
  ∃ before after, pairs = before ++ (key, value) :: after ∧ key ∉ after.map Prod.fst

theorem isLast_cons {pair : κ × ν} {rest : List (κ × ν)} {key : κ} {value : ν} :
    IsLast (pair :: rest) key value ↔
      IsLast rest key value ∨ pair = (key, value) ∧ key ∉ rest.map Prod.fst := by
  constructor
  · rintro ⟨before, after, heq, hafter⟩
    cases before with
    | nil =>
      obtain ⟨rfl, rfl⟩ := List.cons.inj heq
      exact .inr ⟨rfl, hafter⟩
    | cons first before => exact .inl ⟨before, after, (List.cons.inj heq).2, hafter⟩
  · rintro (⟨before, after, rfl, hafter⟩ | ⟨rfl, hrest⟩)
    · exact ⟨pair :: before, after, rfl, hafter⟩
    · exact ⟨[], rest, rfl, hrest⟩

variable [Ord κ]

/-- The value of the last pair for a key. -/
def last? (key : κ) (pairs : List (κ × ν)) : Option ν := lookup key pairs.reverse

theorem lookup_append (key : κ) (xs ys : List (κ × ν)) :
    lookup key (xs ++ ys) = (lookup key xs).or (lookup key ys) := by
  induction xs with
  | nil => simp [lookup]
  | cons x xs ih =>
    simp only [List.cons_append, lookup, ih]
    split <;> rfl

theorem last?_cons (key : κ) (pair : κ × ν) (rest : List (κ × ν)) :
    last? key (pair :: rest) = (last? key rest).or (if compare key pair.1 = .eq then some pair.2 else none) := by
  rw [last?, List.reverse_cons, lookup_append]
  rfl

variable [Std.LawfulEqOrd κ]

theorem lookup_eq_none_iff {key : κ} {pairs : List (κ × ν)} : lookup key pairs = none ↔ key ∉ pairs.map Prod.fst := by
  induction pairs with
  | nil => simp [lookup]
  | cons pair rest ih =>
    rw [List.map_cons, List.mem_cons, not_or, ← ih, lookup]
    by_cases heq : compare key pair.1 = .eq
    · simp [Std.LawfulEqCmp.eq_of_compare heq]
    · have hne : key ≠ pair.1 := fun h => heq (h ▸ Std.ReflCmp.compare_self)
      simp [heq, hne]

theorem mem_of_lookup {key : κ} {value : ν} {pairs : List (κ × ν)} (h : lookup key pairs = some value) :
    (key, value) ∈ pairs := by
  induction pairs with
  | nil => cases h
  | cons pair rest ih =>
    rw [lookup] at h
    split at h
    · rename_i heq
      obtain rfl := Std.LawfulEqCmp.eq_of_compare heq
      cases h
      exact List.mem_cons_self
    · exact List.mem_cons_of_mem _ (ih h)

theorem nodup_of_ascending {pairs : List (κ × ν)} (h : Ascending pairs) : (pairs.map Prod.fst).Nodup := by
  refine List.pairwise_map.2 (h.imp fun {a b} hlt heq => ?_)
  have hrefl : compare b.1 b.1 = .eq := Std.ReflCmp.compare_self
  rw [heq, hrefl] at hlt
  cases hlt

theorem lookup_of_mem {pairs : List (κ × ν)} (h : (pairs.map Prod.fst).Nodup) {pair : κ × ν} (hpair : pair ∈ pairs) :
    lookup pair.1 pairs = some pair.2 := by
  induction pairs with
  | nil => cases hpair
  | cons first rest ih =>
    rw [List.map_cons, List.nodup_cons] at h
    rw [lookup]
    rcases List.mem_cons.1 hpair with rfl | hpair
    · rw [if_pos Std.ReflCmp.compare_self]
    · have hne : compare pair.1 first.1 ≠ .eq := by
        intro heq
        rw [← Std.LawfulEqCmp.eq_of_compare heq] at h
        exact h.1 (List.mem_map_of_mem hpair)
      rw [if_neg hne, ih h.2 hpair]

theorem last?_eq_none_iff {key : κ} {pairs : List (κ × ν)} : last? key pairs = none ↔ key ∉ pairs.map Prod.fst := by
  rw [last?, lookup_eq_none_iff, List.map_reverse, List.mem_reverse]

theorem last?_eq_some_iff {key : κ} {value : ν} {pairs : List (κ × ν)} :
    last? key pairs = some value ↔ IsLast pairs key value := by
  induction pairs with
  | nil => simp [last?, lookup, IsLast]
  | cons pair rest ih =>
    rw [last?_cons, Option.or_eq_some_iff, ih, isLast_cons, last?_eq_none_iff]
    refine or_congr_right ?_
    constructor
    · rintro ⟨hrest, hpair⟩
      split at hpair
      · rename_i heq
        obtain rfl := Std.LawfulEqCmp.eq_of_compare heq
        cases hpair
        exact ⟨rfl, hrest⟩
      · cases hpair
    · rintro ⟨rfl, hrest⟩
      exact ⟨hrest, if_pos Std.ReflCmp.compare_self⟩

/-- Where every key occurs once the order of the pairs makes no difference. -/
theorem lookup_of_perm {xs ys : List (κ × ν)} (hperm : xs.Perm ys) (h : (xs.map Prod.fst).Nodup) (key : κ) :
    lookup key xs = lookup key ys := by
  have hkeys : (xs.map Prod.fst).Perm (ys.map Prod.fst) := hperm.map Prod.fst
  by_cases hkey : key ∈ xs.map Prod.fst
  · obtain ⟨pair, hpair, rfl⟩ := List.mem_map.1 hkey
    rw [lookup_of_mem h hpair, lookup_of_mem (hkeys.nodup_iff.1 h) (hperm.mem_iff.1 hpair)]
  · rw [lookup_eq_none_iff.2 hkey, lookup_eq_none_iff.2 fun hmem => hkey (hkeys.mem_iff.2 hmem)]

theorem lookup_reverse {pairs : List (κ × ν)} (h : (pairs.map Prod.fst).Nodup) (key : κ) :
    lookup key pairs.reverse = lookup key pairs :=
  (lookup_of_perm (List.reverse_perm pairs).symm h key).symm

variable [Std.TransOrd κ]

theorem find?_insertAll (table : Keyed κ ν) (pairs : List (κ × ν)) (key : κ) :
    (table.insertAll pairs).find? key = (last? key pairs).or (table.find? key) := by
  induction pairs generalizing table with
  | nil => simp [insertAll, last?, lookup]
  | cons pair rest ih =>
    have hrest : (table.insertAll (pair :: rest)).find? key =
        ((table.insert pair.1 pair.2).insertAll rest).find? key := rfl
    rw [hrest, ih, find?_insert, last?_cons, Option.or_assoc]
    congr 1
    split <;> rfl

theorem find?_insertAll_entries (table top : Keyed κ ν) (key : κ) :
    (table.insertAll top.entries).find? key = (top.find? key).or (table.find? key) := by
  rw [find?_insertAll, last?, lookup_reverse (nodup_of_ascending top.ascending)]
  rfl

theorem entries_insertAll (table : Keyed κ ν) (pairs : List (κ × ν)) :
    (table.insertAll pairs).entries =
      pairs.foldl (fun entries pair => insertInto pair.1 pair.2 entries) table.entries := by
  induction pairs generalizing table with
  | nil => rfl
  | cons pair rest ih => exact ih (table.insert pair.1 pair.2)

/-- What is collected under a key is the value of the last pair for it. -/
theorem lookup_collect (pairs : List (κ × ν)) (key : κ) : lookup key (collect pairs) = last? key pairs := by
  have hentries : collect pairs = ((empty : Keyed κ ν).insertAll pairs).entries :=
    (entries_insertAll empty pairs).symm
  have hfind := find?_insertAll (empty : Keyed κ ν) pairs key
  rw [hentries]
  exact hfind.trans Option.or_none

/-- Pairs that are collected in any order make up the ascending list of them. -/
theorem collect_of_perm {pairs entries : List (κ × ν)} (hperm : pairs.Perm entries) (h : Ascending entries) :
    collect pairs = entries := by
  have honce : (pairs.map Prod.fst).Nodup := (hperm.map Prod.fst).nodup_iff.2 (nodup_of_ascending h)
  refine eq_of_lookup_eq (ascending_collect pairs) h fun key => ?_
  rw [lookup_collect, last?, lookup_reverse honce, lookup_of_perm hperm honce]

theorem mem_of_mem_insertAll {table : Keyed κ ν} {pairs : List (κ × ν)} {pair : κ × ν}
    (h : pair ∈ (table.insertAll pairs).entries) : pair ∈ pairs ∨ pair ∈ table.entries := by
  induction pairs generalizing table with
  | nil => exact .inr h
  | cons first rest ih =>
    rcases @ih (table.insert first.1 first.2) h with h | h
    · exact .inl (List.mem_cons_of_mem _ h)
    · rcases mem_insertInto h with rfl | h
      · exact .inl List.mem_cons_self
      · exact .inr h

/-- A table is that of its own entries. -/
theorem insertAll_empty_entries (table : Keyed κ ν) : (empty : Keyed κ ν).insertAll table.entries = table :=
  ext_find? fun key => (find?_insertAll_entries empty table key).trans Option.or_none

end ApiClient.Keyed
