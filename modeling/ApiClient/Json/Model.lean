import ApiClient.Json.Embedded
import ApiClient.Json.Record

/-!
# Types with a JSON form

`JsonModel` is the class of types that are written as JSON values and read back from them.  A record type gives its
fields and how their values make up the record; its object and array forms, from values and from text, follow.
-/

namespace ApiClient

/-- A type whose values are written as JSON values and read back. -/
class JsonModel (α : Type) where
  toJson : α → Json
  ofJson? : Json → Option α

/-- A type of records: its fields, its members in the order they are written, and the record that fields make up. -/
class JsonRecord (α : Type) where
  fields : List Json.Field
  members : α → List (String × Json)
  ofFields? : List Json → Option α

namespace JsonRecord

variable {α : Type} [JsonRecord α]

/-- A record from an object or an array. -/
def ofJson? (v : Json) : Option α := Json.record? (fields α) v >>= ofFields?

/-- A record in a text. -/
def read : Json.Reader α := fun cs => do
  let (vs, rest) ← Json.readRecord (fields α) cs
  match ofFields? vs with
  | some x => .ok (x, rest)
  | none => .error .mismatch

/-- The records of an array in a text. -/
def readList : Json.Reader (List α) := fun cs => do
  let (vss, rest) ← Json.readRecords (fields α) cs
  match vss.mapM ofFields? with
  | some xs => .ok (xs, rest)
  | none => .error .mismatch

/-- The record that a string holds. -/
def parse? (s : String) : Option α := (Json.document read s.toList).toOption

/-- A record as an object whose members stand in the order of the fields. -/
def written (x : α) : Json := .obj (members x)

instance : JsonModel α where
  toJson x := Json.object (members x)
  ofJson? := ofJson?

end JsonRecord

namespace JsonModel

instance : JsonModel Json where
  toJson v := v
  ofJson? := Json.expand?

instance : JsonModel Bool where
  toJson b := .bool b
  ofJson?
    | .bool b => some b
    | _ => none

instance : JsonModel String where
  toJson s := .str s
  ofJson? := Json.asStr?

instance : JsonModel Int64 where
  toJson n := .num (.int n.toInt ⟨by have := n.le_toInt; omega, by have := n.toInt_lt; omega⟩)
  ofJson?
    | .num (.int n _) => if -0x8000000000000000 ≤ n ∧ n < 0x8000000000000000 then some (Int64.ofInt n) else none
    | _ => none

instance : JsonModel UInt8 where
  toJson n := .num (.int n.toNat ⟨by omega, by have := n.toNat_lt; omega⟩)
  ofJson?
    | .num (.int n _) => if 0 ≤ n ∧ n < 0x100 then some (UInt8.ofNat n.toNat) else none
    | _ => none

instance : JsonModel Binary64 where
  toJson x := .num (.float x)
  ofJson?
    | .num (.float x) => some x
    | .num (.int n _) => Binary64.ofInt n
    | _ => none

instance {α : Type} [JsonModel α] : JsonModel (List α) where
  toJson xs := .arr (xs.map toJson)
  ofJson?
    | .arr items => items.mapM ofJson?
    | _ => none

/-- Nothing is written as `null`. -/
instance {α : Type} [JsonModel α] : JsonModel (Option α) where
  toJson
    | some x => toJson x
    | none => .null
  ofJson?
    | .null => some none
    | v => (ofJson? v).map some

/-- A table with texts for its keys is an object. -/
instance {α : Type} [JsonModel α] : JsonModel (Keyed String α) where
  toJson table := .obj (table.entries.map fun e => (e.1, toJson e.2))
  ofJson?
    | .obj members => do
      let pairs ← members.mapM fun m => (ofJson? m.2).map fun x => (m.1, x)
      return Keyed.empty.insertAll pairs
    | _ => none

end JsonModel

end ApiClient
