import ApiClient.Http.Status
import ApiClient.PetStore.Laws
import ApiClient.PetStore.Multipart
import ApiClient.Text.Decimal

/-!
# A loopback

A framework that takes requests to `127.0.0.1:3000` straight to the endpoints.  It carries requests to paths of plain
segments with encoded pairs for a query.  URLs are limited to 65,534 characters and bodies to 2 MiB; longer URLs are
not sent, and longer bodies are refused where they are read.  JSON has to be declared without parameters, and form
data has to be framed.
-/

namespace ApiClient.PetStore.Loopback

/-- What the outside decides of an exchange: its date, and the boundary of form data. -/
structure Moment where
  date : String
  boundary : String
  isToken : boundary.toList.all Http.isTokenChar = true

/-- The address. -/
def address : String := "127.0.0.1:3000"

/-- The length of the longest URL. -/
def maxUrl : Nat := 65534

/-- The length of the longest body. -/
def maxBody : Nat := 2097152

/-! ### Targets -/

/-- The segments of a path and a query. -/
structure Target where
  segments : List String
  query : Option String

/-- What a URL at the address stands for. -/
def Target.ofUrl? (url : String) : Option Target :=
  let origin := ("http://" ++ address).toList
  if origin.isPrefixOf url.toList then
    let (path, query) := Text.splitFirst '?' (url.toList.drop origin.length)
    match Text.splitBy (fun c => c == '/') path with
    | [] :: segments => some ⟨segments.map String.ofList, query.map String.ofList⟩
    | _ => none
  else none

/-- Whether a target is made of plain segments and encoded pairs. -/
def Target.isPlain (t : Target) : Bool :=
  t.segments.all (fun s => s.toList.all isPlainChar) && t.query.all fun q => q.toList.all isPairsChar

/-- A segment as it is sent, with braces escaped. -/
def escape (segment : String) : String := String.ofList (Text.Percent.encode isWordChar segment.toList)

/-- A query as it is sent, with apostrophes escaped. -/
def escapeQuery (query : String) : String :=
  String.ofList (Text.Percent.encode (fun c => c != '\'') query.toList)

/-- A target as it is sent. -/
def Target.sent (t : Target) : Target := ⟨t.segments.map escape, t.query.map escapeQuery⟩

/-- The URL of a target. -/
def Target.url (t : Target) : String := urlText address t.segments t.query

/-! ### Requests -/

/-- Whether form data can be told from the marks in it, and the caller did not declare it as something else. -/
def isFramed (r : Http.Request) : Bool :=
  match r.payload with
  | some (.form fields) => fields.all Multipart.isFramed && !r.headers.has "content-type"
  | _ => true

/-- The body that is sent. -/
def sentBody (m : Moment) (r : Http.Request) : List UInt8 :=
  match r.payload with
  | some (.form fields) => Multipart.encode m.boundary fields
  | _ => r.bytes?.getD []

/-- The headers that a request is given on the way, after its own. -/
def addedHeaders (m : Moment) (r : Http.Request) : Http.Headers :=
  (if r.bytes?.isNone then [("content-type", Multipart.contentType m.boundary)] else []) ++
    (if (sentBody m r).isEmpty then [] else [("content-length", toString (sentBody m r).length)]) ++
    (if r.headers.has "accept" then [] else [("accept", "*/*")]) ++
    (if r.headers.has "host" then [] else [("host", address)])

/-- A value if it is visible text. -/
def visibleText? (value : String) : Option String :=
  if value.toList.all fun c => c == '\t' || (0x20 ≤ c.toNat && c.toNat < 0x7F) then some value else none

/-- The arrival of a request to a target. -/
def arrival (m : Moment) (r : Http.Request) (t : Target) : Arrival where
  method := r.method
  path := t.sent.segments
  query := t.sent.query
  headers := (r.headers ++ addedHeaders m r).map fun h => (Text.lower h.1, visibleText? h.2)
  body := sentBody m r

/-- The arrival of a request, if it can be sent. -/
def arrive (m : Moment) (r : Http.Request) : Except String Arrival :=
  match Target.ofUrl? r.url with
  | none => .error "builder error"
  | some t =>
    if t.isPlain && t.sent.url.length ≤ maxUrl && Http.isSendable r.headers && isFramed r then .ok (arrival m r t)
    else .error "builder error"

/-- Whether a request is within the limits however much of its URL is escaped, and its form data is framed. -/
def Fits (r : Http.Request) : Prop :=
  3 * r.url.length ≤ maxUrl ∧ (∀ data, r.bytes? = some data → data.length ≤ maxBody) ∧ isFramed r = true

/-! ### Paths -/

/-- The variable segments of a path, decoded. -/
def capture : List Segment → List String → Option (List (Option String))
  | [], [] => some []
  | .literal text :: pattern, segment :: path => if segment = text then capture pattern path else none
  | .variable _ :: pattern, segment :: path =>
    if segment = "" then none
    else (capture pattern path).map fun captured =>
      (Text.Percent.decode? segment.toList).map String.ofList :: captured
  | _, _ => none

/-- Whether a filter takes a method. -/
def takes : Filter → Http.Method → Bool
  | .get, m => m = .get || m = .head
  | .post, m => m = .post
  | .delete, m => m = .delete
  | .any, _ => true

/-! ### Reading -/

/-- The value of a parameter that may be given once: `none` if it is given twice. -/
def single? (name : String) (pairs : List (String × String)) : Option (Option String) :=
  match (pairs.filter fun p => p.1 == name).map Prod.snd with
  | [] => some none
  | [value] => some (some value)
  | _ => none

/-- The parameters of a listing. -/
def listParams? (query : Option String) : Option ListParams := do
  let pairs := Text.Form.decode (query.getD "").toList
  let tag ← single? "tag" pairs
  match ← single? "limit" pairs with
  | none => some ⟨tag, none⟩
  | some text => (Text.numberBelow? 0x10000000000000000 text).map fun limit => ⟨tag, some limit⟩

/-- The parameters of a listing, refused if they cannot be read. -/
def listParams (query : Option String) : Except Rejection ListParams :=
  match listParams? query with
  | some params => .ok params
  | none => .error ⟨400, "Failed to deserialize query string"⟩

/-- The content type that a request declares. -/
def contentType? (a : Arrival) : Option String := (visible a.headers).find? "content-type"

/-- What is said to a body that is too long. -/
def tooLong : Rejection := ⟨413, "Failed to buffer the request body: length limit exceeded"⟩

/-- A body within the limit. -/
def bytes (a : Arrival) : Except Rejection (List UInt8) :=
  if a.body.length ≤ maxBody then .ok a.body else .error tooLong

/-- The pet that a request asks to create. -/
def draft (a : Arrival) : Except Rejection Draft :=
  if contentType? a = some "application/json" then
    match bytes a with
    | .error rejection => .error rejection
    | .ok body =>
      match Json.documentBytes JsonRecord.read body with
      | .ok d => .ok d
      | .error .malformed => .error ⟨400, "Failed to parse the request body as JSON"⟩
      | .error .mismatch => .error ⟨422, "Failed to deserialize the JSON body into the target type"⟩
  else .error ⟨415, "Expected request with \x60Content-Type: application/json\x60"⟩

/-- The parts of form data. -/
def parts (a : Arrival) : Except Rejection (List (Option Part)) :=
  match contentType? a >>= Multipart.boundary? with
  | none => .error ⟨400, "Invalid \x60boundary\x60 for \x60multipart/form-data\x60 request"⟩
  | some boundary =>
    match Multipart.decode? boundary a.body with
    | some fields => .ok (fields.map fun f => some ⟨some f.1, some f.2⟩)
    | none => .ok [none]

/-! ### Answering -/

/-- The name of the methods that a filter takes. -/
def filterName : Filter → String
  | .get => "GET,HEAD"
  | .post => "POST"
  | .delete => "DELETE"
  | .any => "*"

/-- Status, headers and body of a reply. -/
def message : Reply → UInt16 × Http.Headers × List UInt8
  | .json status headers value =>
    (status, ("content-type", "application/json") :: headers, Text.Utf8.encode value.print)
  | .bare status => (status, [], [])
  | .text [] text => (200, [("content-type", "text/plain; charset=utf-8")], Text.Utf8.bytes text)
  | .text headers text => (200, headers, Text.Utf8.bytes text)
  | .untyped text => (200, [], Text.Utf8.bytes text)
  | .refused rejection =>
    (rejection.status, [("content-type", "text/plain; charset=utf-8")], Text.Utf8.bytes rejection.text)
  | .noRoute => (404, [], [])
  | .noMethod taken => (405, [("allow", String.intercalate "," (taken.map filterName))], [])

/-- The answer that reaches the client.  Its length is told unless there can be no body, and `HEAD` gets no body. -/
def respond (m : Moment) (method : Http.Method) (reply : Reply) : Received :=
  let (status, headers, body) := message reply
  let length := if status = 204 then [] else [("content-length", toString body.length)]
  ⟨status, (headers ++ length ++ [("date", m.date)]).map fun h => (h.1, some h.2),
    if method = .head then [] else body⟩

end Loopback

/-- The loopback. -/
def loopback : Framework Loopback.Moment where
  arrive := Loopback.arrive
  Fits := Loopback.Fits
  capture := Loopback.capture
  takes := Loopback.takes
  badPath _ := ⟨400, "Invalid URL"⟩
  listParams := Loopback.listParams
  draft := Loopback.draft
  bytes := Loopback.bytes
  parts := Loopback.parts
  isStatus code := 100 ≤ code && code < 1000
  respond m method reply := .ok (Loopback.respond m method reply)
  reason := Http.reasonPhrase

end ApiClient.PetStore
