import ApiClient.PetStore.Pet

/-!
# The pets that are kept

A store holds pets with distinct identifiers, in the order they came.  A listing takes them in whatever order they are
enumerated: it keeps those with the tag that is asked for, sorts them by name and cuts the list off at a limit.

Key facts: `find?_insert` and `find?_erase`, both change what is found under one identifier only.
-/

namespace ApiClient.PetStore

/-- The pets that are kept. -/
structure Store where
  pets : List Pet
  distinct : (pets.map Pet.id).Nodup

namespace Store

/-- The store without pets. -/
def empty : Store := ⟨[], List.Pairwise.nil⟩

/-- The pet with an identifier. -/
def find? (s : Store) (id : Uuid) : Option Pet := s.pets.find? fun p => p.id == id

/-- The store without the pet that has an identifier. -/
def erase (s : Store) (id : Uuid) : Store :=
  ⟨s.pets.filter fun p => p.id != id, s.distinct.sublist (List.filter_sublist.map Pet.id)⟩

/-- The store with a pet, in place of any that has its identifier. -/
def insert (s : Store) (p : Pet) : Store where
  pets := (s.erase p.id).pets ++ [p]
  distinct := by
    rw [List.map_append, List.nodup_append]
    refine ⟨(s.erase p.id).distinct, by simp, ?_⟩
    intro a ha b hb
    simp only [erase, List.mem_map, List.mem_filter] at ha
    obtain ⟨q, ⟨-, hq⟩, rfl⟩ := ha
    simp only [List.map_cons, List.map_nil, List.mem_singleton] at hb
    subst hb
    simpa using hq

theorem find?_erase (s : Store) (id other : Uuid) :
    (s.erase id).find? other = if other = id then none else s.find? other := by
  by_cases h : other = id
  · subst h
    simp [find?, erase]
  · simp only [find?, erase, List.find?_filter, h, if_false]
    congr 1
    funext p
    by_cases hp : p.id = other
    · simp [hp, h]
    · simp [hp]

theorem find?_insert (s : Store) (p : Pet) (other : Uuid) :
    (s.insert p).find? other = if other = p.id then some p else s.find? other := by
  have hfind : (s.insert p).find? other = ((s.erase p.id).find? other).or ([p].find? fun q => q.id == other) := by
    simp [insert, find?, List.find?_append]
  rw [hfind, find?_erase]
  by_cases h : other = p.id
  · simp [h]
  · have hne : ¬p.id = other := fun e => h e.symm
    simp [h, hne]

end Store

/-! ### Listings -/

/-- What a listing may ask for. -/
structure ListParams where
  tag : Option String
  limit : Option Nat
  deriving DecidableEq

/-- Whether a pet has the tag that is asked for; every pet does if none is. -/
def hasTag (tag : Option String) (p : Pet) : Bool := tag.isNone || p.tag == tag

/-- The pets with a tag among those enumerated, by name, at most as many as the limit. -/
def listing (tag : Option String) (limit : Option Nat) (pets : List Pet) : List Pet :=
  let sorted := (pets.filter (hasTag tag)).mergeSort fun a b => decide (a.name ≤ b.name)
  match limit with
  | some n => sorted.take n
  | none => sorted

end ApiClient.PetStore
