import ApiClient.Json.Model

/-!
# Members of an enumeration

A member of a schema enumeration: its name, the literal it stands for, and optional title and description.
-/

namespace ApiClient.Enumeration

/-- The kind of literal that a member stands for. -/
inductive Kind where
  | string | number
  deriving DecidableEq

namespace Kind

/-- The word for a kind. -/
def word : Kind → String
  | .string => "string"
  | .number => "number"

/-- The kind of a word. -/
def ofWord? : String → Option Kind
  | "string" => some .string
  | "number" => some .number
  | _ => none

theorem ofWord?_word (k : Kind) : ofWord? k.word = some k := by cases k <;> rfl

/-- A kind is one of two words. -/
def shape : Json.Shape := .choice ["string", "number"]

instance : JsonModel Kind where
  toJson k := .str k.word
  ofJson? v :=
    match shape.ofJson? v with
    | some (.str word) => ofWord? word
    | _ => none

end Kind

/-- A member of an enumeration. -/
structure Member where
  name : String
  description : Option String
  value : String
  title : Option String
  kind : Kind
  deriving DecidableEq

namespace Member

instance : JsonRecord Member where
  fields :=
    [⟨"name", .text fun _ => true, false⟩, ⟨"description", .optionalText, true⟩,
      ⟨"value", .text fun _ => true, false⟩,
      ⟨"title", .optionalText, true⟩, ⟨"type", Kind.shape, false⟩]
  members m :=
    [("name", .str m.name), ("description", JsonModel.toJson m.description), ("value", .str m.value),
      ("title", JsonModel.toJson m.title), ("type", .str m.kind.word)]
  ofFields?
    | [.str name, description, .str value, title, .str word] => do
      let description ← JsonModel.ofJson? description
      let title ← JsonModel.ofJson? title
      let kind ← Kind.ofWord? word
      return ⟨name, description, value, title, kind⟩
    | _ => none

end Member

end ApiClient.Enumeration
