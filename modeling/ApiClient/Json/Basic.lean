import ApiClient.Binary64.Basic
import ApiClient.Keyed

/-!
# JSON values

Numbers are whole numbers that 64 bits hold, signed or unsigned, or finite doubles; the two are never equal.  The
members of an object are a list in ascending order of the keys.  The type itself admits lists in any order, and
`Json.Sorted` says of a value that every object in it is ordered; readers and `Json.object` produce such values only.

Key facts: equality is decidable; `sorted_object`, collecting members yields an ordered object.
-/

namespace ApiClient

/-- A number: a whole one or a double. -/
inductive Json.Number where
  | int (value : Int) (inRange : -0x8000000000000000 ≤ value ∧ value < 0x10000000000000000)
  | float (value : Binary64)
  deriving DecidableEq

/-- A JSON value. -/
inductive Json where
  | null
  | bool (value : Bool)
  | num (value : Json.Number)
  | str (value : String)
  | arr (items : List Json)
  | obj (members : List (String × Json))
  deriving Inhabited

namespace Json

/-! ### Equality -/

mutual
/-- Whether two values are equal. -/
def decEq : (a b : Json) → Decidable (a = b)
  | .null, .null => isTrue rfl
  | .null, .bool _ | .null, .num _ | .null, .str _ | .null, .arr _ | .null, .obj _ => isFalse nofun
  | .bool x, .bool y => decidable_of_iff (x = y) (by simp)
  | .bool _, .null | .bool _, .num _ | .bool _, .str _ | .bool _, .arr _ | .bool _, .obj _ => isFalse nofun
  | .num x, .num y => decidable_of_iff (x = y) (by simp)
  | .num _, .null | .num _, .bool _ | .num _, .str _ | .num _, .arr _ | .num _, .obj _ => isFalse nofun
  | .str x, .str y => decidable_of_iff (x = y) (by simp)
  | .str _, .null | .str _, .bool _ | .str _, .num _ | .str _, .arr _ | .str _, .obj _ => isFalse nofun
  | .arr x, .arr y =>
    match decEqItems x y with
    | isTrue h => isTrue (h ▸ rfl)
    | isFalse h => isFalse fun e => h (by injection e)
  | .arr _, .null | .arr _, .bool _ | .arr _, .num _ | .arr _, .str _ | .arr _, .obj _ => isFalse nofun
  | .obj x, .obj y =>
    match decEqMembers x y with
    | isTrue h => isTrue (h ▸ rfl)
    | isFalse h => isFalse fun e => h (by injection e)
  | .obj _, .null | .obj _, .bool _ | .obj _, .num _ | .obj _, .str _ | .obj _, .arr _ => isFalse nofun

/-- Whether two lists of values are equal. -/
def decEqItems : (a b : List Json) → Decidable (a = b)
  | [], [] => isTrue rfl
  | [], _ :: _ | _ :: _, [] => isFalse nofun
  | x :: xs, y :: ys =>
    match decEq x y, decEqItems xs ys with
    | isTrue hx, isTrue hxs => isTrue (hx ▸ hxs ▸ rfl)
    | isFalse h, _ => isFalse fun e => h (List.cons.inj e).1
    | _, isFalse h => isFalse fun e => h (List.cons.inj e).2

/-- Whether two lists of members are equal. -/
def decEqMembers : (a b : List (String × Json)) → Decidable (a = b)
  | [], [] => isTrue rfl
  | [], _ :: _ | _ :: _, [] => isFalse nofun
  | (k, x) :: xs, (l, y) :: ys =>
    if hk : k = l then
      match decEq x y, decEqMembers xs ys with
      | isTrue hx, isTrue hxs => isTrue (hk ▸ hx ▸ hxs ▸ rfl)
      | isFalse h, _ => isFalse fun e => h (Prod.mk.inj (List.cons.inj e).1).2
      | _, isFalse h => isFalse fun e => h (List.cons.inj e).2
    else isFalse fun e => hk (Prod.mk.inj (List.cons.inj e).1).1
end

instance : DecidableEq Json := decEq

/-! ### Order of members -/

mutual
/-- Every object in the value has its members in ascending order of the keys. -/
def Sorted : Json → Prop
  | .arr items => SortedItems items
  | .obj members => Keyed.Ascending members ∧ SortedMembers members
  | _ => True

/-- `Sorted` for each value of a list. -/
def SortedItems : List Json → Prop
  | [] => True
  | v :: rest => Sorted v ∧ SortedItems rest

/-- `Sorted` for the value of each member. -/
def SortedMembers : List (String × Json) → Prop
  | [] => True
  | (_, v) :: rest => Sorted v ∧ SortedMembers rest
end

/-- The object with the given members; of members with the same key the last counts. -/
def object (members : List (String × Json)) : Json := .obj (Keyed.collect members)

theorem sortedMembers_iff {members : List (String × Json)} :
    SortedMembers members ↔ ∀ m ∈ members, Sorted m.2 := by
  induction members with
  | nil => simp [SortedMembers]
  | cons m rest ih =>
    obtain ⟨k, v⟩ := m
    simp [SortedMembers, ih]

theorem sortedMembers_insertInto {key : String} {value : Json} {members : List (String × Json)}
    (hv : Sorted value) (h : SortedMembers members) : SortedMembers (Keyed.insertInto key value members) := by
  rw [sortedMembers_iff] at *
  intro m hm
  rcases Keyed.mem_insertInto hm with rfl | hm
  · exact hv
  · exact h m hm

/-- Collecting members yields an ordered object. -/
theorem sorted_object {members : List (String × Json)} (h : SortedMembers members) : Sorted (object members) := by
  refine ⟨Keyed.ascending_collect members, ?_⟩
  have key : ∀ (pairs entries : List (String × Json)), SortedMembers pairs → SortedMembers entries →
      SortedMembers (pairs.foldl (fun acc pair => Keyed.insertInto pair.1 pair.2 acc) entries) := by
    intro pairs
    induction pairs with
    | nil => exact fun _ _ h => h
    | cons pair rest ih =>
      intro entries hp he
      exact ih _ hp.2 (sortedMembers_insertInto hp.1 he)
  exact key members [] h trivial

/-! ### Access -/

/-- The member `key` of an object. -/
def member? (key : String) : Json → Option Json
  | .obj members => Keyed.lookup key members
  | _ => none

/-- The text of a string value. -/
def asStr? : Json → Option String
  | .str s => some s
  | _ => none

/-- The items of an array. -/
def asArr? : Json → Option (List Json)
  | .arr items => some items
  | _ => none

/-- A whole number as a value, if 64 bits hold it. -/
def ofInt? (n : Int) : Option Json :=
  if h : -0x8000000000000000 ≤ n ∧ n < 0x10000000000000000 then some (.num (.int n h)) else none

/-- Whether a number is zero, of either kind and either sign. -/
def Number.isZero : Number → Bool
  | .int n _ => n == 0
  | .float x => x.isZero

end Json

end ApiClient
