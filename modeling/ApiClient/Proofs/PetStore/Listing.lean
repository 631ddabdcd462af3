import ApiClient.PetStore.Server
import ApiClient.Proofs.PetStore.Pet
import ApiClient.Proofs.PetStore.Store
import ApiClient.Proofs.Text.Utf8Order

/-!
# Listings of a store

A listing is cut from the list of all pets that are asked for, sorted by name (`listing_eq_take`).  A store may
enumerate its pets in any order; whichever it is, a listing has the same names at the same places, and the same pets
unless two of those that are asked for share a name (`listing_of_order`).
-/

namespace ApiClient.PetStore

open Text

/-- A pet is asked for: it has the tag that is given, if one is. -/
def Wanted (tag : Option String) (p : Pet) : Prop := ∀ t ∈ tag, p.tag = some t

instance (tag : Option String) (p : Pet) : Decidable (Wanted tag p) :=
  inferInstanceAs (Decidable (∀ t ∈ tag, p.tag = some t))

section
variable (tag : Option String) (limit : Option Nat) (pets : List Pet)

theorem mem_listing_none {p : Pet} : p ∈ listing tag none pets ↔ p ∈ pets ∧ Wanted tag p := mem_listing_iff

theorem length_listing_none : (listing tag none pets).length = pets.countP fun p => Wanted tag p := by
  have hfilter : pets.filter (hasTag tag) = pets.filter fun p => Wanted tag p := by
    refine List.filter_congr fun p _ => ?_
    rw [Bool.eq_iff_iff, hasTag_eq_true_iff, decide_eq_true_eq]
    rfl
  rw [(listing_perm tag pets).length_eq, hfilter, List.countP_eq_length_filter]

theorem listing_eq_take : listing tag limit pets = (listing tag none pets).take (limit.getD pets.length) := by
  cases limit with
  | some n => rfl
  | none =>
    have hlength : (listing tag none pets).length ≤ pets.length := by
      rw [length_listing_none]
      exact List.countP_le_length
    rw [Option.getD_none, List.take_of_length_le hlength]

theorem listing_sublist : (listing tag limit pets).Sublist (listing tag none pets) := by
  rw [listing_eq_take]
  exact List.take_sublist _ _

theorem length_listing :
    (listing tag limit pets).length =
      match limit with
      | some n => min n (pets.countP fun p => Wanted tag p)
      | none => pets.countP fun p => Wanted tag p := by
  cases limit with
  | some n => rw [listing_eq_take, List.length_take, length_listing_none, Option.getD_some]
  | none => exact length_listing_none tag pets

/-- What the limit cuts off is no earlier by name than what is left. -/
theorem le_of_not_mem_listing {p q : Pet} (hp : p ∈ listing tag none pets) (hnot : p ∉ listing tag limit pets)
    (hq : q ∈ listing tag limit pets) : q.name ≤ p.name := by
  rw [listing_eq_take] at hnot hq
  have hsorted := sorted_listing tag pets
  rw [← List.take_append_drop (limit.getD pets.length) (listing tag none pets), List.pairwise_append] at hsorted
  rw [← List.take_append_drop (limit.getD pets.length) (listing tag none pets), List.mem_append] at hp
  exact hsorted.2.2 q hq p (hp.resolve_left hnot)

end

/-! ### Another order -/

section
variable {pets other : List Pet} (horder : other.Perm pets) (tag : Option String) (limit : Option Nat)
include horder

private theorem listing_none_perm : (listing tag none other).Perm (listing tag none pets) :=
  (listing_perm tag other).trans ((horder.filter _).trans (listing_perm tag pets).symm)

theorem names_listing_of_perm : (listing tag limit other).map Pet.name = (listing tag limit pets).map Pet.name := by
  have hnames : (listing tag none other).map Pet.name = (listing tag none pets).map Pet.name := by
    refine List.Perm.eq_of_pairwise (fun _ _ _ _ => String.le_antisymm) ?_ ?_ ((listing_none_perm horder tag).map _)
    · exact List.pairwise_map.2 (sorted_listing tag other)
    · exact List.pairwise_map.2 (sorted_listing tag pets)
  rw [listing_eq_take tag limit other, listing_eq_take tag limit pets, List.map_take, List.map_take, hnames,
    horder.length_eq]

theorem listing_of_perm (hnames : ∀ p ∈ pets, ∀ q ∈ pets, Wanted tag p → Wanted tag q → p.name = q.name → p = q) :
    listing tag limit other = listing tag limit pets := by
  have hall : listing tag none other = listing tag none pets := by
    refine List.Perm.eq_of_pairwise ?_ (sorted_listing tag other) (sorted_listing tag pets)
      (listing_none_perm horder tag)
    intro p q hp hq hpq hqp
    obtain ⟨hp, hwanted⟩ := (mem_listing_none tag other).1 hp
    obtain ⟨hq, hwanted'⟩ := (mem_listing_none tag pets).1 hq
    exact hnames p (horder.mem_iff.1 hp) q hq hwanted hwanted' (String.le_antisymm hpq hqp)
  rw [listing_eq_take tag limit other, listing_eq_take tag limit pets, hall, horder.length_eq]

end

/-- What the store lists for a tag and a limit, in whatever order it enumerates its pets.  A request for a listing is
answered with JSON whose text is read back as the pets that are listed. -/
theorem listing_of_order {s t : Store} (horder : t.pets.Perm s.pets) (tag : Option String) (limit : Option Nat) :
    let listed := listing tag limit s.pets
    (∀ (μ : Type) (w : Framework μ) (a : Arrival), w.listParams a.query = .ok ⟨tag, limit⟩ →
      list w a s = .json 200 [] (petsJson listed)) ∧
    (Content.ofBytes .json (Utf8.encode (petsJson listed).print)).read (List Pet) = some listed ∧
    (∀ p ∈ listed, p ∈ s.pets ∧ Wanted tag p) ∧ listed.Nodup ∧
    (listed.length =
      match limit with
      | some n => min n (s.pets.countP fun p => Wanted tag p)
      | none => s.pets.countP fun p => Wanted tag p) ∧
    (listed.Pairwise fun p q => Utf8.bytes p.name ≤ Utf8.bytes q.name) ∧
    (∀ p ∈ s.pets, Wanted tag p → ∀ q ∈ listed, Utf8.bytes p.name < Utf8.bytes q.name → p ∈ listed) ∧
    (listing tag limit t.pets).map Pet.name = listed.map Pet.name ∧
    ((∀ p ∈ s.pets, ∀ q ∈ s.pets, Wanted tag p → Wanted tag q → p.name = q.name → p = q) →
      listing tag limit t.pets = listed) := by
  intro listed
  refine ⟨?_, ?_, ?_, ?_, length_listing tag limit s.pets, ?_, ?_, names_listing_of_perm horder tag limit,
    listing_of_perm horder tag limit⟩
  · intro μ w a hparams
    rw [list, hparams]
  · rw [Content.ofBytes, petsJson, ofBytes?_pets]
    exact ofJson?_pets listed
  · intro p hp
    exact (mem_listing_none tag s.pets).1 ((listing_sublist tag limit s.pets).mem hp)
  · exact (nodup_listing_of_tag tag s).sublist (listing_sublist tag limit s.pets)
  · refine ((sorted_listing tag s.pets).sublist (listing_sublist tag limit s.pets)).imp ?_
    exact Utf8.bytes_le_iff.2
  · intro p hp hwanted q hq hlt
    by_contra hnot
    have hle := le_of_not_mem_listing tag limit s.pets ((mem_listing_none tag s.pets).2 ⟨hp, hwanted⟩) hnot hq
    exact String.not_lt.2 hle (Utf8.bytes_lt_iff.1 hlt)

theorem listing_of_sorted {pets : List Pet} (hsorted : pets.Pairwise fun p q => p.name ≤ q.name) (tag : Option String)
    (n : Nat) : listing tag (some n) pets = (pets.filter (hasTag tag)).take n := by
  have hfilter : (pets.filter (hasTag tag)).Pairwise fun p q => decide (p.name ≤ q.name) = true :=
    (hsorted.filter _).imp decide_eq_true
  show ((pets.filter (hasTag tag)).mergeSort fun a b => decide (a.name ≤ b.name)).take n = _
  rw [List.mergeSort_of_pairwise hfilter]

/-- Dogs in the order in which they are inserted, all of one name but the first. -/
def dogs (ids : List Nat) : Store :=
  ids.foldl (fun s n => s.insert ⟨.ofNat n, if n = 1 then "Ace" else "Rex", some "dog"⟩) Store.empty

theorem listing_of_order_tie :
    let listed := listing (some "dog") (some 2) (dogs [1, 2, 3]).pets
    let other := listing (some "dog") (some 2) (dogs [1, 3, 2]).pets
    (dogs [1, 3, 2]).pets.Perm (dogs [1, 2, 3]).pets ∧ listed.length = 2 ∧ other.map Pet.name = listed.map Pet.name ∧
      listed.map Pet.id = [.ofNat 1, .ofNat 2] ∧ other.map Pet.id = [.ofNat 1, .ofNat 3] := by
  intro listed other
  have horder : (dogs [1, 3, 2]).pets.Perm (dogs [1, 2, 3]).pets := by decide +kernel
  have hcount : (dogs [1, 2, 3]).pets.countP (fun p => Wanted (some "dog") p) = 3 := by decide +kernel
  obtain ⟨-, -, -, -, hlength, -, -, hnames, -⟩ := listing_of_order horder (some "dog") (some 2)
  have hids : listed.map Pet.id = [.ofNat 1, .ofNat 2] := by
    have hsorted : (dogs [1, 2, 3]).pets.Pairwise fun p q => p.name ≤ q.name := by decide +kernel
    show (listing (some "dog") (some 2) (dogs [1, 2, 3]).pets).map Pet.id = _
    rw [listing_of_sorted hsorted]
    decide +kernel
  have hother : other.map Pet.id = [.ofNat 1, .ofNat 3] := by
    have hsorted : (dogs [1, 3, 2]).pets.Pairwise fun p q => p.name ≤ q.name := by decide +kernel
    show (listing (some "dog") (some 2) (dogs [1, 3, 2]).pets).map Pet.id = _
    rw [listing_of_sorted hsorted]
    decide +kernel
  exact ⟨horder, hlength.trans (by rw [hcount]; rfl), hnames, hids, hother⟩

end ApiClient.PetStore
