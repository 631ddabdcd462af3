import ApiClient.Http.Message
import ApiClient.Json.Model
import ApiClient.Text.Blank

/-!
# Decoded content

The content of a response is decoded by its content type.  The media type is what stands before the first `;`, without
blanks around it; `application/json` in any letter case selects JSON, everything else text.  Without a content type,
or when JSON cannot be read, the content is empty; text is always decoded, broken bytes replaced.
-/

namespace ApiClient

/-- How a body is decoded. -/
inductive Decoding where
  | json | text
  deriving DecidableEq

/-- The decoding that a content type selects. -/
def Decoding.ofContentType (contentType : String) : Decoding :=
  let mediaType := Text.trim (contentType.toList.takeWhile fun c => c ≠ ';')
  if Text.SameName (String.ofList mediaType) "application/json" then .json else .text

/-- JSON without parameters. -/
theorem Decoding.ofContentType_json : Decoding.ofContentType "application/json" = .json := by decide +kernel

/-- The decoded content of a response. -/
inductive Content where
  | empty
  | text (text : String)
  | json (value : Json)
  deriving DecidableEq

namespace Content

/-- The bytes of a body, decoded. -/
def ofBytes (decoding : Decoding) (body : List UInt8) : Content :=
  match decoding with
  | .json =>
    match Json.ofBytes? body with
    | some v => .json v
    | none => .empty
  | .text => .text (String.ofList (Text.Utf8.decodeLossy body))

/-- The content of a response. -/
def ofResponse (r : Http.Response) : Content :=
  match r.headers.find? "content-type" with
  | some contentType => ofBytes (Decoding.ofContentType contentType) r.body
  | none => .empty

/-- The content of a response that declares JSON without parameters. -/
theorem ofResponse_of_json {r : Http.Response} (h : r.headers.find? "content-type" = some "application/json") :
    ofResponse r =
      match Json.ofBytes? r.body with
      | some v => .json v
      | none => .empty := by
  rw [ofResponse, h]
  show ofBytes (Decoding.ofContentType "application/json") r.body = _
  rw [Decoding.ofContentType_json]
  rfl

/-- Whether a response declares JSON that cannot be read. -/
def isUnreadable (r : Http.Response) : Bool :=
  match r.headers.find? "content-type" with
  | some contentType => Decoding.ofContentType contentType == .json && (Json.ofBytes? r.body).isNone
  | none => false

/-- The value of a response header, if it is there and not empty. -/
def headerText (r : Http.Response) (name : String) : Option String :=
  (r.headers.find? name).filter fun v => !v.isEmpty

/-- The content as a value of a type: JSON that has the form of the type. -/
def read (α : Type) [JsonModel α] : Content → Option α
  | .json v => JsonModel.ofJson? v
  | _ => none

end Content

end ApiClient
