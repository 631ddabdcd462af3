import ApiClient.Json.Model
import ApiClient.PetStore.Uuid

/-!
# Pets

What the pet store keeps, what it is asked to create, and what it reports of a request.  A pet without a tag is
written without that member.
-/

namespace ApiClient.PetStore

/-- A string as a JSON member that is left out when there is none. -/
def memberIfSome (key : String) (text : Option String) : List (String × Json) :=
  (text.map fun t => (key, Json.str t)).toList

/-- A pet. -/
structure Pet where
  id : Uuid
  name : String
  tag : Option String
  deriving DecidableEq

instance : JsonRecord Pet where
  fields :=
    [⟨"id", .text fun s => (Uuid.parse? s).isSome, false⟩, ⟨"name", .text fun _ => true, false⟩,
      ⟨"tag", .optionalText, true⟩]
  members p := ("id", .str p.id.toString) :: ("name", .str p.name) :: memberIfSome "tag" p.tag
  ofFields?
    | [.str id, .str name, tag] => do
      let id ← Uuid.parse? id
      let tag ← JsonModel.ofJson? tag
      return ⟨id, name, tag⟩
    | _ => none

/-- A pet to be created. -/
structure Draft where
  name : String
  tag : Option String
  deriving DecidableEq

instance : JsonRecord Draft where
  fields := [⟨"name", .text fun _ => true, false⟩, ⟨"tag", .optionalText, true⟩]
  members d := ("name", .str d.name) :: memberIfSome "tag" d.tag
  ofFields?
    | [.str name, tag] => do
      let tag ← JsonModel.ofJson? tag
      return ⟨name, tag⟩
    | _ => none

/-- What the store saw of a request. -/
structure Echo where
  method : String
  query : Option String
  headers : Keyed String String
  body : String
  deriving DecidableEq

instance : JsonRecord Echo where
  fields :=
    [⟨"method", .text fun _ => true, false⟩, ⟨"query", .optionalText, false⟩, ⟨"headers", .textMap, false⟩,
      ⟨"body", .text fun _ => true, false⟩]
  members e :=
    [("method", .str e.method), ("query", JsonModel.toJson e.query), ("headers", JsonModel.toJson e.headers),
      ("body", .str e.body)]
  ofFields?
    | [.str method, query, headers, .str body] => do
      let query ← JsonModel.ofJson? query
      let headers ← JsonModel.ofJson? headers
      return ⟨method, query, headers, body⟩
    | _ => none

end ApiClient.PetStore
