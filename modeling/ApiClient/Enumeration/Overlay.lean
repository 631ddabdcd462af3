import ApiClient.Enumeration.Member
import ApiClient.Json.Printer

/-!
# Overlays on the members of an enumeration

A schema may hold arrays parallel to its enumeration that rename, retitle, describe or revalue the members.  Names,
titles and descriptions are the string items of their arrays, counted without the others; values are all items of
theirs.  An item that is there and not empty takes the place of the member's own field, and a member keeps its kind.
-/

namespace ApiClient.Enumeration

/-- What a schema lays over the members of its enumeration; `none` where it has no such array. -/
structure Overlay where
  values : Option (List Json)
  names : Option (List String)
  titles : Option (List String)
  descriptions : Option (List String)
  deriving DecidableEq

namespace Overlay

/-- The array that a schema holds under a key. -/
def array? (schema : Json) (key : String) : Option (List Json) := schema.member? key >>= Json.asArr?

/-- The string items of the array that a schema holds under a key. -/
def strings? (schema : Json) (key : String) : Option (List String) :=
  (array? schema key).map fun items => items.filterMap Json.asStr?

/-- The overlay in a schema. -/
def ofSchema (schema : Json) : Overlay where
  values := array? schema "x-enum-values"
  names := strings? schema "x-enum-varnames"
  titles := strings? schema "x-enum-titles"
  descriptions := strings? schema "x-enum-descriptions"

/-- Whether a schema has none of the arrays. -/
def isEmpty (o : Overlay) : Bool := o.values.isNone && o.names.isNone && o.titles.isNone && o.descriptions.isNone

/-- The text at a position, if it is there and not empty. -/
def textAt (items : Option (List String)) (i : Nat) : Option String :=
  (items >>= fun texts => texts[i]?).filter fun s => !s.isEmpty

/-- The text of a value that takes the place of a member's own: strings as they are, everything else as JSON.  Empty
strings, zeros, `false` and `null` take no place. -/
def replacement? : Json → Option String
  | .null => none
  | .bool b => if b then some "true" else none
  | .num n => if n.isZero then none else some (Json.num n).render
  | .str s => if s.isEmpty then none else some s
  | .arr items => some (Json.arr items).render
  | .obj members => some (Json.obj members).render

/-- The text of the value at a position, if it takes the place of a member's own. -/
def valueAt (items : Option (List Json)) (i : Nat) : Option String :=
  (items >>= fun values => values[i]?) >>= replacement?

/-- The member at a position with the overlay on it. -/
def applyAt (o : Overlay) (i : Nat) (m : Member) : Member where
  name := (textAt o.names i).getD m.name
  description := (textAt o.descriptions i).or m.description
  value := (valueAt o.values i).getD m.value
  title := (textAt o.titles i).or m.title
  kind := m.kind

/-- The members with the overlay on them, by position. -/
def apply (o : Overlay) (members : List Member) : List Member := members.mapIdx o.applyAt

/-- The members after each of some schemas, every one laid over what the ones before it made. -/
def stages (members : List Member) : List Json → List (List Member)
  | [] => []
  | schema :: rest =>
    let next := (ofSchema schema).apply members
    next :: stages next rest

/-- The members after all of some schemas. -/
def applyAll (members : List Member) (schemas : List Json) : List Member :=
  schemas.foldl (fun members schema => (ofSchema schema).apply members) members

theorem length_apply (o : Overlay) (members : List Member) : (o.apply members).length = members.length := by
  simp [apply]

theorem getLast?_stages (members : List Member) (schemas : List Json) :
    (members :: stages members schemas).getLast? = some (applyAll members schemas) := by
  induction schemas generalizing members with
  | nil => rfl
  | cons schema rest ih => exact ih ((ofSchema schema).apply members)

end Overlay

end ApiClient.Enumeration
