import ApiClient.Proofs.Json.Faithful
import ApiClient.Proofs.PetStore.Uuid
import ApiClient.PetStore.Pet

/-!
# Pets as JSON

A pet is the same object in either of its forms (`toJson_eq_written`) and is read back from it (`ofJson?_toJson`), and
so are the pets of a list (`ofJson?_pets`).  JSON text with one pet or a list of pets reads back (`ofBytes?_pet`,
`ofBytes?_pets`).
-/

namespace ApiClient.PetStore

open Json

private theorem members_eq (p : Pet) : JsonRecord.members p =
    ("id", .str p.id.toString) :: ("name", .str p.name) :: memberIfSome "tag" p.tag := rfl

private theorem ascending_members (p : Pet) : Keyed.Ascending (JsonRecord.members p) := by
  have hname : compare "id" "name" = .lt := by decide +kernel
  have htag : compare "id" "tag" = .lt := by decide +kernel
  have hlast : compare "name" "tag" = .lt := by decide +kernel
  rw [members_eq, Keyed.Ascending]
  cases p.tag with
  | none => simp [memberIfSome, hname]
  | some tag => simp [memberIfSome, hname, htag, hlast]

theorem toJson_eq_written (p : Pet) : JsonModel.toJson p = JsonRecord.written p := by
  show Json.object (JsonRecord.members p) = .obj (JsonRecord.members p)
  rw [Json.object, Keyed.collect_of_ascending (ascending_members p)]

theorem ofJson?_toJson (p : Pet) : JsonModel.ofJson? (JsonModel.toJson p) = some p := by
  rw [toJson_eq_written]
  show JsonRecord.ofJson? (.obj (JsonRecord.members p)) = some p
  rw [members_eq, JsonRecord.ofJson?]
  obtain ⟨id, name, tag⟩ := p
  cases tag with
  | none =>
    simp [memberIfSome, record?, Keyed.lookup, Shape.ofJson?, Shape.missing, JsonRecord.fields, JsonRecord.ofFields?,
      Uuid.parse?_toString, JsonModel.ofJson?]
  | some tag =>
    simp [memberIfSome, record?, Keyed.lookup, Shape.ofJson?, Shape.missing, JsonRecord.fields, JsonRecord.ofFields?,
      Uuid.parse?_toString, JsonModel.ofJson?, asStr?]

theorem ofJson?_pets (pets : List Pet) : JsonModel.ofJson? (Json.arr (pets.map JsonRecord.written)) = some pets := by
  show (pets.map JsonRecord.written).mapM JsonModel.ofJson? = some pets
  induction pets with
  | nil => rfl
  | cons p rest ih =>
    rw [List.map_cons, List.mapM_cons, ← toJson_eq_written, ofJson?_toJson, ih]
    rfl

/-! ### Texts -/

/-- A pet is an object of strings, which is not taken for embedded text. -/
private theorem written_simple (p : Pet) :
    Sorted (JsonRecord.written p) ∧ Whole (JsonRecord.written p) ∧ Plain (JsonRecord.written p) ∧
      depth (JsonRecord.written p) ≤ 1 := by
  have hkey : "id" ≠ embeddedKey := by decide
  have hascending := ascending_members p
  show Sorted (.obj (JsonRecord.members p)) ∧ Whole (.obj (JsonRecord.members p)) ∧
    Plain (.obj (JsonRecord.members p)) ∧ depth (.obj (JsonRecord.members p)) ≤ 1
  rw [members_eq] at hascending ⊢
  cases htag : p.tag <;> rw [htag] at hascending
  all_goals
    simp only [memberIfSome, Option.map_none, Option.map_some, Option.toList_none, Option.toList_some] at hascending ⊢
    refine ⟨⟨hascending, ?_⟩, ?_, ⟨hkey, ?_⟩, ?_⟩
    all_goals
      simp [SortedMembers, Sorted, Whole, WholeMembers, Plain, PlainMembers, depth, depthMembers]

theorem ofBytes?_pet (p : Pet) :
    ofBytes? (Text.Utf8.encode (JsonRecord.written p).print) = some (JsonRecord.written p) := by
  obtain ⟨hsorted, hwhole, hplain, hdepth⟩ := written_simple p
  exact (ofBytes?_print_eq_some_iff hsorted hwhole).2 ⟨Nat.le_trans hdepth (by decide), hplain⟩

theorem ofBytes?_pets (pets : List Pet) :
    ofBytes? (Text.Utf8.encode (Json.arr (pets.map JsonRecord.written)).print) =
      some (.arr (pets.map JsonRecord.written)) := by
  have hitems : SortedItems (pets.map JsonRecord.written) ∧ WholeItems (pets.map JsonRecord.written) ∧
      PlainItems (pets.map JsonRecord.written) ∧ depthItems (pets.map JsonRecord.written) ≤ 1 := by
    induction pets with
    | nil => simp [SortedItems, WholeItems, PlainItems, depthItems]
    | cons p rest ih =>
      obtain ⟨hsorted, hwhole, hplain, hdepth⟩ := written_simple p
      obtain ⟨hsorted', hwhole', hplain', hdepth'⟩ := ih
      exact ⟨⟨hsorted, hsorted'⟩, ⟨hwhole, hwhole'⟩, ⟨hplain, hplain'⟩, Nat.max_le.2 ⟨hdepth, hdepth'⟩⟩
  obtain ⟨hsorted, hwhole, hplain, hdepth⟩ := hitems
  refine (ofBytes?_print_eq_some_iff ?_ ?_).2 ⟨?_, ?_⟩
  · rwa [Sorted]
  · rwa [Whole]
  · rw [depth]
    exact Nat.le_trans (Nat.succ_le_succ hdepth) (by decide)
  · rwa [Plain]

end ApiClient.PetStore
