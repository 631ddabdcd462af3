import ApiClient.Json.Reader

/-!
# Embedded text in values

A reader finds an embedded text where its key comes first in the text of an object.  The members of an object that has
been read are in the order of their keys, and there the key may come first although it did not in the text.  When a
value is taken over from another, objects are looked at in that order: one that begins with the key stands for the
value of the text under it, and has no value if it has other members or the text cannot be read.

Key fact: `expandWith_of_plain`, a value in which no object begins with the key is taken over unchanged.
-/

namespace ApiClient.Json

/-- The text that an object stands for which begins with the key of embedded text: the string under the key, if there
is nothing else. -/
def embeddedString? : Json → List (String × Json) → Option String
  | .str s, [] => some s
  | _, _ => none

mutual
/-- The value taken over from another, embedded texts read by `embedded`. -/
def expandWith (embedded : String → Option Json) : Json → Option Json
  | .arr items => (expandItemsWith embedded items).map .arr
  | .obj [] => some (.obj [])
  | .obj ((key, v) :: rest) =>
    if key = embeddedKey then embeddedString? v rest >>= embedded
    else do
      let v ← expandWith embedded v
      let rest ← expandMembersWith embedded rest
      some (.obj ((key, v) :: rest))
  | v => some v

/-- The items of an array, each taken over. -/
def expandItemsWith (embedded : String → Option Json) : List Json → Option (List Json)
  | [] => some []
  | v :: rest => do
    let v ← expandWith embedded v
    let rest ← expandItemsWith embedded rest
    some (v :: rest)

/-- The members of an object, the value of each taken over. -/
def expandMembersWith (embedded : String → Option Json) : List (String × Json) → Option (List (String × Json))
  | [] => some []
  | (key, v) :: rest => do
    let v ← expandWith embedded v
    let rest ← expandMembersWith embedded rest
    some ((key, v) :: rest)
end

/-- The value taken over from another, with embedded texts read. -/
def expand? (v : Json) : Option Json := expandWith parse? v

/-! ### Plain values -/

mutual
/-- No object in the value begins with the key of embedded text. -/
def Plain : Json → Prop
  | .arr items => PlainItems items
  | .obj [] => True
  | .obj ((key, v) :: rest) => key ≠ embeddedKey ∧ Plain v ∧ PlainMembers rest
  | _ => True

/-- `Plain` for each value of a list. -/
def PlainItems : List Json → Prop
  | [] => True
  | v :: rest => Plain v ∧ PlainItems rest

/-- `Plain` for the value of each member. -/
def PlainMembers : List (String × Json) → Prop
  | [] => True
  | (_, v) :: rest => Plain v ∧ PlainMembers rest
end

section
variable {embedded : String → Option Json}

mutual
/-- A plain value is taken over unchanged. -/
theorem expandWith_of_plain : (v : Json) → Plain v → expandWith embedded v = some v
  | .null, _ | .bool _, _ | .num _, _ | .str _, _ | .obj [], _ => by simp [expandWith]
  | .arr items, h => by
    rw [Plain] at h
    simp [expandWith, expandItemsWith_of_plain items h]
  | .obj ((key, v) :: rest), h => by
    rw [Plain] at h
    simp [expandWith, h.1, expandWith_of_plain v h.2.1, expandMembersWith_of_plain rest h.2.2]

theorem expandItemsWith_of_plain :
    (items : List Json) → PlainItems items → expandItemsWith embedded items = some items
  | [], _ => rfl
  | v :: rest, h => by
    rw [PlainItems] at h
    simp [expandItemsWith, expandWith_of_plain v h.1, expandItemsWith_of_plain rest h.2]

theorem expandMembersWith_of_plain :
    (members : List (String × Json)) → PlainMembers members → expandMembersWith embedded members = some members
  | [], _ => rfl
  | (_, v) :: rest, h => by
    rw [PlainMembers] at h
    simp [expandMembersWith, expandWith_of_plain v h.1, expandMembersWith_of_plain rest h.2]
end

end

end ApiClient.Json
