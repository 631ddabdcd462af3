import ApiClient.Answer
import ApiClient.Config
import ApiClient.Query

/-!
# Assembling a request

A description and a configuration make a request.  Its headers are, in this order: `Accept`, the caller's headers,
each name once with the last value given for it, then the bearer token, then the content type that the body implies.
The last two are put at the end whatever the caller's headers are.  Form fields take the place of the body, without
those that are `null`; a body that is not present leaves the request without one.

Writing a body may fail as far as its form says, and then no request is made.  No body does (`Descriptor.build_eq`).
-/

namespace ApiClient

/-- The content type that a body implies. -/
def Body.contentType? (b : Body) : Option String :=
  if b.isPresent then
    match b with
    | .binary _ declared => declared.filter fun t => !t.isEmpty
    | .text _ => some "text/plain"
    | .json _ => some "application/json"
  else none

/-- The payload of a body. -/
def Body.payload : Body → Http.Payload
  | .binary data _ => .bytes data
  | .text s => .text s
  | .json v => .text v.render

/-- The header that carries the token. -/
def Config.authorization (config : Config) : Http.Headers :=
  match config.bearerToken with
  | some token => [("Authorization", "Bearer " ++ token)]
  | none => []

namespace Descriptor

/-- The caller's headers over the usual one: each name once, with its last value. -/
def mergedHeaders (caller : Http.Headers) : Http.Headers :=
  caller.foldl (fun headers h => headers.setValue h.1 h.2) [("Accept", "application/json")]

/-- The header for the content type that the body implies. -/
def contentTypeHeader (d : Descriptor) : Http.Headers :=
  if d.form.isSome then []
  else
    match d.body >>= Body.contentType? with
    | some contentType => [("Content-Type", contentType)]
    | none => []

/-- The headers of the request. -/
def requestHeaders (d : Descriptor) (config : Config) : Http.Headers :=
  mergedHeaders d.headers ++ config.authorization ++ d.contentTypeHeader

/-- The form fields that are sent: those that are not `null`, as texts. -/
def formTexts (fields : List (String × Json)) : List (String × String) :=
  fields.filterMap fun f =>
    match f.2 with
    | .null => none
    | v => some (f.1, Query.valueText v)

/-- The payload of the request. -/
def payload (d : Descriptor) : Option Http.Payload :=
  match d.form with
  | some fields => some (.form (formTexts fields))
  | none => (d.body.filter Body.isPresent).map Body.payload

/-- The URL of the request. -/
def url (d : Descriptor) (config : Config) : String := Query.url config.baseUrl d.path d.query

/-- The request. -/
def request (d : Descriptor) (config : Config) : Http.Request :=
  ⟨d.method, d.url config, d.requestHeaders config, d.payload⟩

end Descriptor

/-! ### Writing that may fail -/

/-- A body written as a payload. -/
def Body.write : Body → Except Failure Http.Payload
  | .binary data _ => .ok (.bytes data)
  | .text s => .ok (.text s)
  | .json v =>
    match v.write with
    | .ok s => .ok (.text s)
    | .error reason => .error (.serialization reason)

theorem Body.write_eq (b : Body) : b.write = .ok b.payload := by cases b <;> rfl

namespace Descriptor

/-- The payload of the request, if it can be written. -/
def writePayload (d : Descriptor) : Except Failure (Option Http.Payload) :=
  match d.form with
  | some fields => .ok (some (.form (formTexts fields)))
  | none =>
    match d.body.filter Body.isPresent with
    | some b => b.write.map some
    | none => .ok none

/-- The request, if its body can be written. -/
def build (d : Descriptor) (config : Config) : Except Failure Http.Request :=
  d.writePayload.map fun payload => ⟨d.method, d.url config, d.requestHeaders config, payload⟩

/-- There is always a request. -/
theorem build_eq (d : Descriptor) (config : Config) : d.build config = .ok (d.request config) := by
  have hpayload : d.writePayload = .ok d.payload := by
    rw [writePayload, payload]
    cases d.form with
    | some fields => rfl
    | none =>
      cases d.body.filter Body.isPresent with
      | some b => exact congrArg (Except.map some) b.write_eq
      | none => rfl
  rw [build, hpayload]
  rfl

end Descriptor

end ApiClient
