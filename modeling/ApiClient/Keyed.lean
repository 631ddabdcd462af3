/-!
# Keyed lists

Lists of pairs in ascending order of their keys, each key once: the members of a JSON object and tables of messages
by status.  Inserting a pair puts it where its key belongs and replaces what was stored under that key.

Key facts: `ascending_insertInto`, insertion keeps the order; `lookup_insertInto`, it changes the value of its own key
only; `eq_of_lookup_eq`, an ascending list is determined by its values.
-/

namespace ApiClient.Keyed

variable {κ ν : Type} [Ord κ]

/-! ### Lists of pairs -/

/-- Each key is below every later one. -/
def Ascending (entries : List (κ × ν)) : Prop := entries.Pairwise fun a b => compare a.1 b.1 = .lt

instance (entries : List (κ × ν)) : Decidable (Ascending entries) :=
  inferInstanceAs (Decidable (entries.Pairwise fun a b => compare a.1 b.1 = .lt))

/-- `entries` with `value` stored under `key`. -/
def insertInto (key : κ) (value : ν) : List (κ × ν) → List (κ × ν)
  | [] => [(key, value)]
  | entry :: rest =>
    match compare key entry.1 with
    | .lt => (key, value) :: entry :: rest
    | .eq => (key, value) :: rest
    | .gt => entry :: insertInto key value rest

/-- The value stored under `key`. -/
def lookup (key : κ) : List (κ × ν) → Option ν
  | [] => none
  | entry :: rest => if compare key entry.1 = .eq then some entry.2 else lookup key rest

/-- The pairs of a list inserted one after the other, so that the last of equal keys counts. -/
def collect (pairs : List (κ × ν)) : List (κ × ν) :=
  pairs.foldl (fun entries pair => insertInto pair.1 pair.2 entries) []

theorem mem_insertInto {key : κ} {value : ν} {entries : List (κ × ν)} {x : κ × ν}
    (h : x ∈ insertInto key value entries) : x = (key, value) ∨ x ∈ entries := by
  induction entries with
  | nil => simpa [insertInto] using h
  | cons entry rest ih =>
    simp only [insertInto] at h
    split at h
    · simpa using h
    · rcases List.mem_cons.1 h with h | h
      · exact .inl h
      · exact .inr (List.mem_cons_of_mem _ h)
    · rcases List.mem_cons.1 h with h | h
      · exact .inr (h ▸ List.mem_cons_self)
      · exact (ih h).imp_right (List.mem_cons_of_mem _)

theorem lookup_eq_none_of_lt {key : κ} {entries : List (κ × ν)} (h : ∀ x ∈ entries, compare key x.1 = .lt) :
    lookup key entries = none := by
  induction entries with
  | nil => rfl
  | cons entry rest ih =>
    have hlt := h entry List.mem_cons_self
    simp only [lookup, hlt]
    simpa using ih fun x hx => h x (List.mem_cons_of_mem _ hx)

/-- Insertion changes the value of its own key only. -/
theorem lookup_insertInto [Std.LawfulEqOrd κ] (key other : κ) (value : ν) (entries : List (κ × ν)) :
    lookup other (insertInto key value entries) =
      if compare other key = .eq then some value else lookup other entries := by
  induction entries with
  | nil => rfl
  | cons entry rest ih =>
    simp only [insertInto]
    split
    · rfl
    · rename_i heq
      cases Std.LawfulEqCmp.eq_of_compare heq
      simp only [lookup]
      split <;> rfl
    · rename_i hgt
      simp only [lookup, ih]
      split
      · rename_i hother
        have hne : compare other key ≠ .eq := fun h => by
          rw [← Std.LawfulEqCmp.eq_of_compare h, hother] at hgt
          cases hgt
        simp [hne]
      · rfl

variable [Std.TransOrd κ]

/-- A pair whose key is above all others goes to the end. -/
theorem insertInto_append {key : κ} {value : ν} {entries : List (κ × ν)}
    (h : ∀ x ∈ entries, compare x.1 key = .lt) : insertInto key value entries = entries ++ [(key, value)] := by
  induction entries with
  | nil => rfl
  | cons entry rest ih =>
    have hgt : compare key entry.1 = .gt := Std.OrientedCmp.gt_iff_lt.2 (h entry List.mem_cons_self)
    simp only [insertInto, hgt, List.cons_append]
    rw [ih fun x hx => h x (List.mem_cons_of_mem _ hx)]

theorem foldl_insertInto_of_ascending (pairs entries : List (κ × ν)) (h : Ascending (entries ++ pairs)) :
    pairs.foldl (fun acc pair => insertInto pair.1 pair.2 acc) entries = entries ++ pairs := by
  induction pairs generalizing entries with
  | nil => simp
  | cons pair rest ih =>
    have hlast : ∀ x ∈ entries, compare x.1 pair.1 = .lt := fun x hx =>
      (List.pairwise_append.1 h).2.2 x hx pair List.mem_cons_self
    rw [List.foldl_cons, insertInto_append hlast]
    have heq : entries ++ [(pair.1, pair.2)] ++ rest = entries ++ pair :: rest := by simp
    rw [ih _ (by rw [heq]; exact h), heq]

/-- Collecting an ascending list changes nothing. -/
theorem collect_of_ascending {pairs : List (κ × ν)} (h : Ascending pairs) : collect pairs = pairs :=
  foldl_insertInto_of_ascending pairs [] h

variable [Std.LawfulEqOrd κ]

/-- Insertion keeps the order. -/
theorem ascending_insertInto {key : κ} {value : ν} {entries : List (κ × ν)} (h : Ascending entries) :
    Ascending (insertInto key value entries) := by
  induction entries with
  | nil => exact List.pairwise_singleton _ _
  | cons entry rest ih =>
    have hrest := List.pairwise_cons.1 h
    simp only [insertInto]
    split
    · rename_i hlt
      refine List.pairwise_cons.2 ⟨fun x hx => ?_, h⟩
      rcases List.mem_cons.1 hx with rfl | hx
      · exact hlt
      · exact Std.TransCmp.lt_trans hlt (hrest.1 x hx)
    · rename_i heq
      refine List.pairwise_cons.2 ⟨fun x hx => ?_, hrest.2⟩
      rw [Std.LawfulEqCmp.eq_of_compare heq]
      exact hrest.1 x hx
    · rename_i hgt
      refine List.pairwise_cons.2 ⟨fun x hx => ?_, ih hrest.2⟩
      rcases mem_insertInto hx with rfl | hx
      · exact Std.OrientedCmp.gt_iff_lt.1 hgt
      · exact hrest.1 x hx

theorem ascending_foldl (pairs : List (κ × ν)) {entries : List (κ × ν)} (h : Ascending entries) :
    Ascending (pairs.foldl (fun acc pair => insertInto pair.1 pair.2 acc) entries) := by
  induction pairs generalizing entries with
  | nil => exact h
  | cons pair rest ih => exact ih (ascending_insertInto h)

theorem ascending_collect (pairs : List (κ × ν)) : Ascending (collect pairs) :=
  ascending_foldl pairs List.Pairwise.nil

/-- Two ascending lists with the same value under every key are equal. -/
theorem eq_of_lookup_eq {xs ys : List (κ × ν)} (hx : Ascending xs) (hy : Ascending ys)
    (h : ∀ key, lookup key xs = lookup key ys) : xs = ys := by
  induction xs generalizing ys with
  | nil =>
    cases ys with
    | nil => rfl
    | cons y ys => simpa [lookup, Std.ReflCmp.compare_self] using h y.1
  | cons x xs ih =>
    have hx' := List.pairwise_cons.1 hx
    cases ys with
    | nil => simpa [lookup, Std.ReflCmp.compare_self] using h x.1
    | cons y ys =>
      have hy' := List.pairwise_cons.1 hy
      have hkey : x.1 = y.1 := by
        cases hc : compare x.1 y.1 with
        | eq => exact Std.LawfulEqCmp.eq_of_compare hc
        | lt =>
          have hnone : lookup x.1 (y :: ys) = none := lookup_eq_none_of_lt fun z hz => by
            rcases List.mem_cons.1 hz with rfl | hz
            · exact hc
            · exact Std.TransCmp.lt_trans hc (hy'.1 z hz)
          have := h x.1
          rw [hnone] at this
          simp [lookup, Std.ReflCmp.compare_self] at this
        | gt =>
          have hlt : compare y.1 x.1 = .lt := Std.OrientedCmp.gt_iff_lt.1 hc
          have hnone : lookup y.1 (x :: xs) = none := lookup_eq_none_of_lt fun z hz => by
            rcases List.mem_cons.1 hz with rfl | hz
            · exact hlt
            · exact Std.TransCmp.lt_trans hlt (hx'.1 z hz)
          have := h y.1
          rw [hnone] at this
          simp [lookup, Std.ReflCmp.compare_self] at this
      have hvalue : x.2 = y.2 := by
        have := h x.1
        simpa [lookup, Std.ReflCmp.compare_self, hkey] using this
      have hhead : x = y := Prod.ext hkey hvalue
      have htail : xs = ys := ih hx'.2 hy'.2 fun key => by
        by_cases hk : compare key x.1 = .eq
        · have hlow := Std.LawfulEqCmp.eq_of_compare hk
          rw [lookup_eq_none_of_lt (fun z hz => hlow ▸ hx'.1 z hz),
            lookup_eq_none_of_lt (fun z hz => hlow ▸ hhead ▸ hy'.1 z hz)]
        · have := h key
          simpa [lookup, hk, hkey ▸ hk] using this
      rw [hhead, htail]

end ApiClient.Keyed

namespace ApiClient

/-! ### Tables -/

/-- A table with one value for each of its keys, its entries in ascending order. -/
@[ext] structure Keyed (κ ν : Type) [Ord κ] where
  entries : List (κ × ν)
  ascending : Keyed.Ascending entries
  deriving DecidableEq

namespace Keyed

variable {κ ν : Type} [Ord κ]

/-- The table without entries. -/
def empty : Keyed κ ν := ⟨[], List.Pairwise.nil⟩

/-- The value under `key`. -/
def find? (key : κ) (table : Keyed κ ν) : Option ν := lookup key table.entries

variable [Std.TransOrd κ] [Std.LawfulEqOrd κ]

/-- `table` with `value` under `key`, in place of any value that was there. -/
def insert (table : Keyed κ ν) (key : κ) (value : ν) : Keyed κ ν :=
  ⟨insertInto key value table.entries, ascending_insertInto table.ascending⟩

/-- `table` with a list of pairs inserted in order. -/
def insertAll (table : Keyed κ ν) (pairs : List (κ × ν)) : Keyed κ ν :=
  pairs.foldl (fun table pair => table.insert pair.1 pair.2) table

theorem find?_insert (table : Keyed κ ν) (key other : κ) (value : ν) :
    (table.insert key value).find? other = if compare other key = .eq then some value else table.find? other :=
  lookup_insertInto key other value table.entries

/-- A table is determined by the values of its keys. -/
theorem ext_find? {a b : Keyed κ ν} (h : ∀ key, a.find? key = b.find? key) : a = b :=
  Keyed.ext (eq_of_lookup_eq a.ascending b.ascending h)

end Keyed

end ApiClient
