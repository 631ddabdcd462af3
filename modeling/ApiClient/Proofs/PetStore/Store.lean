import ApiClient.PetStore.Store
import Mathlib.Data.List.Nodup

/-!
# What a store holds

Which pets are there after an insertion or a deletion (`mem_insert`, `mem_erase`), and that a listing without a limit
has every pet with the tag (`mem_listing_iff`) once (`nodup_listing_of_tag`) and in the order of the names
(`sorted_listing`).
-/

namespace ApiClient.PetStore

namespace Store

theorem eq_of_id_eq {s : Store} {p q : Pet} (hp : p ∈ s.pets) (hq : q ∈ s.pets) (h : p.id = q.id) : p = q :=
  List.inj_on_of_nodup_map s.distinct hp hq h

theorem find?_eq_some_iff {s : Store} {id : Uuid} {p : Pet} : s.find? id = some p ↔ p ∈ s.pets ∧ p.id = id := by
  constructor
  · intro h
    have hid := List.find?_some h
    exact ⟨List.mem_of_find?_eq_some h, by simpa using hid⟩
  · rintro ⟨hmem, rfl⟩
    cases h : s.find? p.id with
    | none =>
      have hnone := List.find?_eq_none.1 h p hmem
      simp at hnone
    | some q =>
      have hid : q.id = p.id := by simpa using List.find?_some h
      rw [eq_of_id_eq (List.mem_of_find?_eq_some h) hmem hid]

theorem find?_eq_none_iff {s : Store} {id : Uuid} : s.find? id = none ↔ ∀ p ∈ s.pets, p.id ≠ id := by
  simp [find?]

theorem mem_erase {s : Store} {id : Uuid} {p : Pet} : p ∈ (s.erase id).pets ↔ p ∈ s.pets ∧ p.id ≠ id := by
  simp [erase]

theorem mem_insert {s : Store} {p q : Pet} : q ∈ (s.insert p).pets ↔ q = p ∨ q ∈ s.pets ∧ q.id ≠ p.id := by
  have hpets : (s.insert p).pets = (s.erase p.id).pets ++ [p] := rfl
  rw [hpets, List.mem_append, mem_erase, List.mem_singleton, or_comm]

/-- Nothing is deleted under an identifier that is not there. -/
theorem erase_of_find?_none {s : Store} {id : Uuid} (h : s.find? id = none) : s.erase id = s := by
  have hpets : (s.erase id).pets = s.pets := by
    refine List.filter_eq_self.2 fun p hp => ?_
    rw [bne_iff_ne]
    exact find?_eq_none_iff.1 h p hp
  cases s
  simp only [erase, mk.injEq] at hpets ⊢
  exact hpets

/-- A pet whose identifier is not there goes to the end. -/
theorem insert_pets_of_fresh {s : Store} {p : Pet} (h : p.id ∉ s.pets.map Pet.id) :
    (s.insert p).pets = s.pets ++ [p] := by
  have hnone : s.find? p.id = none := find?_eq_none_iff.2 fun q hq heq => h (heq ▸ List.mem_map_of_mem hq)
  show (s.erase p.id).pets ++ [p] = s.pets ++ [p]
  rw [erase_of_find?_none hnone]

end Store

/-! ### Listings -/

theorem listing_perm (tag : Option String) (pets : List Pet) :
    (listing tag none pets).Perm (pets.filter (hasTag tag)) :=
  List.mergeSort_perm _ _

theorem hasTag_eq_true_iff {tag : Option String} {p : Pet} :
    hasTag tag p = true ↔ ∀ t, tag = some t → p.tag = some t := by
  cases tag <;> simp [hasTag]

theorem mem_listing_iff {tag : Option String} {p : Pet} {pets : List Pet} :
    p ∈ listing tag none pets ↔ p ∈ pets ∧ ∀ t, tag = some t → p.tag = some t := by
  rw [(listing_perm tag pets).mem_iff, List.mem_filter, hasTag_eq_true_iff]

theorem mem_listing {p : Pet} {pets : List Pet} : p ∈ listing none none pets ↔ p ∈ pets := by
  rw [mem_listing_iff]
  exact and_iff_left nofun

theorem nodup_listing_of_tag (tag : Option String) (s : Store) : (listing tag none s.pets).Nodup := by
  have hpets : s.pets.Nodup := List.Nodup.of_map Pet.id s.distinct
  exact (listing_perm tag s.pets).nodup_iff.2 (hpets.filter _)

theorem nodup_listing (s : Store) : (listing none none s.pets).Nodup := nodup_listing_of_tag none s

theorem sorted_listing (tag : Option String) (pets : List Pet) :
    (listing tag none pets).Pairwise fun p q => p.name ≤ q.name := by
  have hsorted : (listing tag none pets).Pairwise fun p q => decide (p.name ≤ q.name) = true := by
    refine List.pairwise_mergeSort ?_ ?_ _
    · intro a b c hab hbc
      rw [decide_eq_true_eq] at hab hbc ⊢
      exact String.le_trans hab hbc
    · intro a b
      rw [Bool.or_eq_true, decide_eq_true_eq, decide_eq_true_eq]
      exact String.le_total a.name b.name
  exact hsorted.imp of_decide_eq_true

end ApiClient.PetStore
