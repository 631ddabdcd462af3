import ApiClient.Http.Message
import ApiClient.Json.Basic

/-!
# Call descriptions

A call is described as data before anything is sent: method and path, query parameters and form fields as JSON values,
headers, a body, the response header that is asked for, and messages for particular statuses.  A body takes part in
the call only if it is present: empty text and the JSON values `null`, `false`, zero and `""` count as no body.
-/

namespace ApiClient

/-- The body of a call. -/
inductive Body where
  /-- Bytes with the media type they are declared to have. -/
  | binary (data : List UInt8) (contentType : Option String)
  | text (text : String)
  | json (value : Json)

namespace Body

/-- Whether a JSON value counts as a body. -/
def isTruthy : Json → Bool
  | .null => false
  | .bool b => b
  | .num n => !n.isZero
  | .str s => !s.isEmpty
  | .arr _ => true
  | .obj _ => true

/-- Whether the body takes part in the call.  Bytes do, even when there are none. -/
def isPresent : Body → Bool
  | .binary _ _ => true
  | .text s => !s.isEmpty
  | .json v => isTruthy v

end Body

/-- Messages by status. -/
abbrev StatusMessages := Keyed UInt16 String

/-- The description of a call. -/
structure Descriptor where
  method : Http.Method
  path : String
  query : List (String × Json)
  headers : Http.Headers
  body : Option Body
  /-- Form fields take the place of the body. -/
  form : Option (List (String × Json))
  /-- The header whose value is wanted instead of the response body. -/
  responseHeader : Option String
  /-- Messages that come before the usual ones. -/
  errors : StatusMessages

namespace Descriptor

/-- The description of a call with nothing but a method and a path. -/
def ofPath (method : Http.Method) (path : String) : Descriptor :=
  ⟨method, path, [], [], none, none, none, Keyed.empty⟩

end Descriptor

end ApiClient
