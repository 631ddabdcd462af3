import ApiClient.Execution
import ApiClient.Json.Printer
import ApiClient.PetStore.Route
import ApiClient.Text.Decimal

/-!
# The pet store as a server

Pets are created, listed, fetched and deleted; the other endpoints report back what was sent or answer in particular
ways.  A request is handled with an identifier that it may give to a new pet.  Only the creation and the deletion of a
pet change the store, and only when they succeed.
-/

namespace ApiClient.PetStore

variable {μ : Type} (w : Framework μ) (a : Arrival)

/-! ### Pets -/

/-- Pets as JSON. -/
def petsJson (pets : List Pet) : Json := .arr (pets.map JsonRecord.written)

/-- The listing that a query asks for. -/
def list (s : Store) : Reply :=
  match w.listParams a.query with
  | .ok params => .json 200 [] (petsJson (listing params.tag params.limit s.pets))
  | .error rejection => .refused rejection

/-- The path of the pet with an identifier. -/
def petPath (id : Uuid) : String := "/pets/" ++ id.toString

/-- The reply to a pet that was created. -/
def createdReply (p : Pet) : Reply := .json 201 [("location", petPath p.id)] (JsonRecord.written p)

/-- The pet that a request creates. -/
def create (fresh : Uuid) (s : Store) : Reply × Store :=
  match w.draft a with
  | .ok d =>
    let p : Pet := ⟨fresh, d.name, d.tag⟩
    (createdReply p, s.insert p)
  | .error rejection => (.refused rejection, s)

/-- The identifier in the variable segment of a path. -/
def segmentId? (captured : List (Option String)) : Option Uuid :=
  match captured with
  | [some segment] => Uuid.parse? segment
  | _ => none

/-- The reply to a path with a segment that cannot be read. -/
def badSegment : Reply := .refused (w.badPath a.path)

/-- A pet. -/
def fetch (captured : List (Option String)) (s : Store) : Reply :=
  match segmentId? captured with
  | none => badSegment w a
  | some id =>
    match s.find? id with
    | some p => .json 200 [] (JsonRecord.written p)
    | none => .bare 404

/-- A pet deleted. -/
def delete (captured : List (Option String)) (s : Store) : Reply × Store :=
  match segmentId? captured with
  | none => (badSegment w a, s)
  | some id =>
    match s.find? id with
    | some _ => (.bare 204, s.erase id)
    | none => (.bare 404, s)

/-! ### The other endpoints -/

/-- What was seen of a request with some body.  Headers that are not visible text are left out, and of several with
one name the last counts. -/
def echoOf (a : Arrival) (body : List UInt8) : Echo where
  method := a.method.name
  query := a.query
  headers := Keyed.empty.insertAll (visible a.headers)
  body := String.ofList (Text.Utf8.decodeLossy body)

/-- What was seen of a request. -/
def echo : Reply :=
  match w.bytes a with
  | .ok body => .json 200 [] (JsonRecord.written (echoOf a body))
  | .error rejection => .refused rejection

/-- The fields of form data, if all parts can be read. -/
def formFields? (parts : List (Option Part)) : Option (List (String × String)) :=
  parts.mapM fun part => do
    let part ← part
    let text ← part.text
    return (part.name.getD "", text)

/-- The last text of every form field. -/
def upload : Reply :=
  match w.parts a with
  | .error rejection => .refused rejection
  | .ok parts =>
    match formFields? parts with
    | some fields => .json 200 [] (Json.object (fields.map fun f => (f.1, Json.str f.2)))
    | none => .bare 400

/-- The status that the variable segment of a path asks for. -/
def statusReply (captured : List (Option String)) : Reply :=
  match captured with
  | [some segment] =>
    match Text.numberBelow? 65536 segment with
    | some code =>
      if w.isStatus code then
        .json (UInt16.ofNat code) [] (Json.object [("status", JsonModel.toJson (Int64.ofNat code))])
      else .bare 400
    | none => badSegment w a
  | _ => badSegment w a

/-! ### Handling -/

/-- The reply of an endpoint to a request, and the store afterwards. -/
def serve (fresh : Uuid) (captured : List (Option String)) (s : Store) : Endpoint → Reply × Store
  | .list => (list w a s, s)
  | .create => create w a fresh s
  | .fetch => (fetch w a captured s, s)
  | .delete => delete w a captured s
  | .echo => (echo w a, s)
  | .upload => (upload w a, s)
  | .status => (statusReply w a captured, s)
  | .greeting => (.text [] "hello", s)
  | .brokenJson => (.text [("content-type", "application/json")] "\x7bnot json", s)
  | .untyped => (.untyped "no content type", s)

/-- The reply to a request and the store afterwards, `fresh` being the identifier for a new pet. -/
def handle (fresh : Uuid) (s : Store) : Reply × Store :=
  match route w a with
  | .ok (endpoint, captured) => serve w a fresh captured s endpoint
  | .error reply => (reply, s)

/-! ### Exchanges -/

/-- What the outside brings to an exchange: the moment of it, and the identifier for a new pet. -/
structure Occasion (μ : Type) where
  moment : μ
  fresh : Uuid
  deriving DecidableEq

/-- A request, what arrived of it, and what it was answered with. -/
structure Exchange where
  request : Http.Request
  arrival : Except String Arrival
  answer : Except String Http.Response

/-- The exchange that a request begins, and the store afterwards. -/
def exchange (o : Occasion μ) (r : Http.Request) (s : Store) : Exchange × Store :=
  match w.arrive o.moment r with
  | .error reason => (⟨r, .error reason, .error reason⟩, s)
  | .ok a =>
    let (reply, s) := handle w a o.fresh s
    (⟨r, .ok a, (w.respond o.moment a.method reply).map (Received.response w.reason)⟩, s)

/-- A store that is being served: its pets and the number of requests so far. -/
structure Service where
  store : Store
  requests : Nat

/-- A service before any request. -/
def Service.start : Service := ⟨Store.empty, 0⟩

/-- The transport to the store, each request having an occasion of its own. -/
def storeTransport (occasions : Nat → Occasion μ) : Transport Service where
  send r service :=
    let (e, store) := exchange w (occasions service.requests) r service.store
    (e.answer, ⟨store, service.requests + 1⟩)

end ApiClient.PetStore
