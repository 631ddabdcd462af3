import ApiClient.Json.Reader

/-!
# Records

A record type is described by its fields, in order: a name, a shape and whether an array may end before it.  Records
are read from values and from text, in two forms.  In an object the members are found by name and unknown ones are
passed over; in an array they are found by position.  Either way the result is one value per field, in the normal form
of the field's shape, with `null` for an optional field that is missing.

Reading from text refuses a member that is given twice, and passes over unknown members without a limit on nesting.
An array with more items than fields is not a text of the record at all, and as a value it has the wrong shape.
-/

namespace ApiClient.Json

/-! ### Passing over -/

/-- Any value, passed over, with at most the given number of arrays and objects open at once. -/
def skip : Nat → Reader Unit
  | 0 => refuse
  | depth + 1 => fun cs =>
    match cs with
    | 'n' :: rest => do
      let rest ← expect ['u', 'l', 'l'] rest
      .ok ((), rest)
    | 't' :: rest => do
      let rest ← expect ['r', 'u', 'e'] rest
      .ok ((), rest)
    | 'f' :: rest => do
      let rest ← expect ['a', 'l', 's', 'e'] rest
      .ok ((), rest)
    | '"' :: rest => do
      let (_, rest) ← string looseUnicodeEscape rest
      .ok ((), rest)
    | '[' :: rest => enclosed ']' (fun _ => skip depth) () rest
    | '{' :: rest =>
      enclosed '}'
        (fun _ cs => do
          let (_, rest) ← memberKey looseUnicodeEscape cs
          skip depth rest)
        () rest
    | cs => do
      let (_, rest) ← numberText cs
      .ok ((), rest)

/-- Any value, passed over. -/
def skipValue : Reader Unit := fun cs => skip (cs.length + 1) cs

/-- The fault of a text that holds a value of another shape than the one asked for.  Arrays and objects are not looked
into. -/
def wrongShape (cs : List Char) : Fault :=
  match cs with
  | '[' :: _ => .mismatch
  | '{' :: _ => .mismatch
  | cs =>
    match scalar cs with
    | .ok _ => .mismatch
    | .error _ => .malformed

/-! ### Shapes -/

/-- What a field holds. -/
inductive Shape where
  /-- A string that passes a test. -/
  | text (accepts : String → Bool)
  /-- A string or `null`. -/
  | optionalText
  /-- One of some words: as a string, or as an object whose only member has the word for its key and `null` for its
  value. -/
  | choice (words : List String)
  /-- An object whose members are strings. -/
  | textMap

namespace Shape

/-- A string that passes a test. -/
def readText (accepts : String → Bool) : Reader Json
  | '"' :: rest => do
    let (s, rest) ← string unicodeEscape rest
    if accepts s then .ok (.str s, rest) else .error .mismatch
  | cs => .error (wrongShape cs)

/-- The value `null`. -/
def readNull : Reader Json
  | 'n' :: rest => do
    let rest ← expect ['u', 'l', 'l'] rest
    .ok (.null, rest)
  | cs => .error (wrongShape cs)

/-- One of some words. -/
def readChoice (words : List String) : Reader Json
  | '"' :: rest => readText words.contains ('"' :: rest)
  | '{' :: rest => do
    let (word, rest) ← readText words.contains (skipSpace rest)
    let rest ← expect [':'] (skipSpace rest)
    let (_, rest) ← readNull (skipSpace rest)
    let rest ← expect ['}'] (skipSpace rest)
    .ok (word, rest)
  | _ => .error .malformed

/-- An object of strings. -/
def readTextMap : Reader Json
  | '{' :: rest => do
    let (ms, rest) ← members (readText fun _ => true) rest
    .ok (Json.object ms, rest)
  | cs => .error (wrongShape cs)

/-- A value of the shape in a text. -/
def read : Shape → Reader Json
  | .text accepts => readText accepts
  | .optionalText => fun cs =>
    match cs with
    | 'n' :: _ => readNull cs
    | _ => readText (fun _ => true) cs
  | .choice words => readChoice words
  | .textMap => readTextMap

/-- The normal form of a value of the shape. -/
def ofJson? : Shape → Json → Option Json
  | .text accepts, .str s => if accepts s then some (.str s) else none
  | .optionalText, .null => some .null
  | .optionalText, .str s => some (.str s)
  | .choice words, .str s => if words.contains s then some (.str s) else none
  | .choice words, .obj [(word, .null)] => if words.contains word then some (.str word) else none
  | .textMap, .obj ms => if ms.all fun m => m.2.asStr?.isSome then some (.obj ms) else none
  | _, _ => none

/-- What stands for a missing member. -/
def missing : Shape → Option Json
  | .optionalText => some .null
  | _ => none

end Shape

/-! ### Fields -/

/-- A field of a record. -/
structure Field where
  name : String
  shape : Shape
  /-- Whether an array may end before the field, which is then `null`. -/
  mayEnd : Bool

/-- What has been read of a record: a value, or none yet, for each field. -/
abbrev Slots := List (Field × Option Json)

namespace Slots

/-- The slots of a record before reading. -/
def start (fields : List Field) : Slots := fields.map fun f => (f, none)

/-- The slot of a name. -/
def get? (name : String) (slots : Slots) : Option (Field × Option Json) :=
  List.find? (fun s => s.1.name == name) slots

/-- The slots with a value put under a name. -/
def fill (name : String) (v : Json) (slots : Slots) : Slots :=
  slots.map fun s => if s.1.name == name then (s.1, some v) else s

/-- The values of all slots, `missing` giving what an empty one stands for. -/
def finish (missing : Field → Option Json) (slots : Slots) : Option (List Json) :=
  slots.mapM fun s => s.2.orElse fun _ => missing s.1

end Slots

/-- What an item that an array lacks stands for. -/
def Field.beyondEnd (f : Field) : Option Json := if f.mayEnd then some .null else none

/-! ### From values -/

/-- The items of an array as fields in order. -/
def recordOfItems? : List Field → List Json → Option (List Json)
  | [], [] => some []
  | [], _ :: _ => none
  | f :: fields, [] => do
    let v ← f.beyondEnd
    let rest ← recordOfItems? fields []
    return v :: rest
  | f :: fields, item :: items => do
    let v ← f.shape.ofJson? item
    let rest ← recordOfItems? fields items
    return v :: rest

/-- The fields of a record in a value. -/
def record? (fields : List Field) : Json → Option (List Json)
  | .obj members =>
    fields.mapM fun f =>
      match Keyed.lookup f.name members with
      | some v => f.shape.ofJson? v
      | none => f.shape.missing
  | .arr items => recordOfItems? fields items
  | _ => none

/-! ### From text -/

/-- One member of a record given as an object. -/
def recordMember (slots : Slots) : Reader Slots
  | '"' :: rest => do
    let (key, rest) ← string unicodeEscape rest
    match slots.get? key with
    | some (_, some _) => .error .mismatch
    | some (f, none) =>
      let rest ← expect [':'] (skipSpace rest)
      let (v, rest) ← f.shape.read (skipSpace rest)
      .ok (slots.fill key v, rest)
    | none =>
      let rest ← expect [':'] (skipSpace rest)
      let (_, rest) ← skipValue (skipSpace rest)
      .ok (slots, rest)
  | _ => .error .malformed

/-- One item of a record given as an array: the slots filled so far, in reverse, and those to come. -/
def recordItem (state : Slots × Slots) : Reader (Slots × Slots) := fun cs =>
  match state.2 with
  | [] => .error .malformed
  | (f, _) :: later => do
    let (v, rest) ← f.shape.read cs
    .ok (((f, some v) :: state.1, later), rest)

/-- The values of the slots, or the fault of a record that lacks some. -/
def Slots.complete (missing : Field → Option Json) (slots : Slots) : Except Fault (List Json) :=
  match slots.finish missing with
  | some vs => .ok vs
  | none => .error .mismatch

/-- The fields of a record in a text. -/
def readRecord (fields : List Field) : Reader (List Json)
  | '{' :: rest => do
    let (slots, rest) ← enclosed '}' recordMember (Slots.start fields) rest
    let vs ← slots.complete fun f => f.shape.missing
    .ok (vs, rest)
  | '[' :: rest => do
    let ((filled, left), rest) ← enclosed ']' recordItem ([], Slots.start fields) rest
    let vs ← Slots.complete Field.beyondEnd (filled.reverse ++ left)
    .ok (vs, rest)
  | cs => .error (wrongShape cs)

/-- The records of an array in a text. -/
def readRecords (fields : List Field) : Reader (List (List Json))
  | '[' :: rest => items (readRecord fields) rest
  | cs => .error (wrongShape cs)

end ApiClient.Json
