import ApiClient.Http.Header
import ApiClient.Http.Method
import ApiClient.Text.Utf8

/-!
# Requests and responses

Both ends of an exchange as plain data.  A request is complete: its URL is absolute and its payload encoded, up to the
form fields, which the sender puts into a multipart body.
-/

namespace ApiClient.Http

/-- What a request carries. -/
inductive Payload where
  /-- Bytes, sent as they are. -/
  | bytes (data : List UInt8)
  /-- Text, sent as UTF-8. -/
  | text (text : String)
  /-- Form fields, sent as multipart form data. -/
  | form (fields : List (String × String))
  deriving DecidableEq

/-- A request. -/
structure Request where
  method : Method
  url : String
  headers : Headers
  payload : Option Payload
  deriving DecidableEq

/-- The bytes that a request carries, empty without a payload.  Those of form fields are not settled before it is
sent. -/
def Request.bytes? (r : Request) : Option (List UInt8) :=
  match r.payload with
  | none => some []
  | some (.bytes data) => some data
  | some (.text text) => some (Text.Utf8.bytes text)
  | some (.form _) => none

/-- A response. -/
structure Response where
  status : UInt16
  statusText : String
  headers : Headers
  body : List UInt8
  deriving DecidableEq

/-- Whether a status reports success. -/
def isSuccess (status : UInt16) : Bool := 200 ≤ status && status < 300

/-- Whether a response reports success. -/
def Response.isOk (r : Response) : Bool := isSuccess r.status

end ApiClient.Http
