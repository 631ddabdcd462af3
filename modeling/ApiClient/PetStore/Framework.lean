import ApiClient.Http.Message
import ApiClient.PetStore.Store

/-!
# What stands between a call and the store

A request is sent by a client's network stack and read by a server's framework; the answer goes back the same way.
Neither is part of the store, so a `Framework` is anything that does what they do: it carries requests and answers,
matches paths and methods, and extracts from a request what an endpoint asks for.  What it is relied on for is stated
apart, as laws.

The outside adds to an exchange what only the moment of it decides, such as the date of an answer or the boundary of a
multipart body.  `μ` stands for such moments.
-/

namespace ApiClient.PetStore

/-! ### Requests -/

/-- A request as it reaches the server. -/
structure Arrival where
  method : Http.Method
  /-- The segments of the path as they were sent. -/
  path : List String
  /-- The query as it was sent. -/
  query : Option String
  /-- Names in lower case with their values, `none` for a value that is not visible text. -/
  headers : List (String × Option String)
  body : List UInt8
  deriving DecidableEq

/-- One part of form data: its name, and its text if it can be read. -/
structure Part where
  name : Option String
  text : Option String
  deriving DecidableEq

/-- What is said to a request that cannot be read. -/
structure Rejection where
  status : UInt16
  text : String
  deriving DecidableEq

/-! ### Routes -/

/-- A piece of a path pattern. -/
inductive Segment where
  | literal (text : String)
  | variable (name : String)
  deriving DecidableEq

/-- The methods that an endpoint is given for. -/
inductive Filter where
  | get | post | delete | any
  deriving DecidableEq

/-! ### Answers -/

/-- What a request is answered with, before it is put into a message. -/
inductive Reply where
  /-- JSON, with headers besides its own. -/
  | json (status : UInt16) (headers : Http.Headers) (value : Json)
  /-- A status and nothing else. -/
  | bare (status : UInt16)
  /-- A text, with headers in place of its own if there are any. -/
  | text (headers : Http.Headers) (text : String)
  /-- A text that has no content type. -/
  | untyped (text : String)
  /-- The request cannot be read. -/
  | refused (rejection : Rejection)
  /-- No pattern matches the path. -/
  | noRoute
  /-- The path takes other methods only. -/
  | noMethod (taken : List Filter)
  deriving DecidableEq

/-- An answer as it reaches the client, `none` for a header value that is not visible text. -/
structure Received where
  status : UInt16
  headers : List (String × Option String)
  body : List UInt8
  deriving DecidableEq

/-- The headers that are visible text. -/
def visible (headers : List (String × Option String)) : Http.Headers :=
  headers.filterMap fun h => h.2.map fun value => (h.1, value)

/-- The response that is made of an answer: headers that are not visible text are left out. -/
def Received.response (reason : UInt16 → String) (x : Received) : Http.Response :=
  ⟨x.status, reason x.status, visible x.headers, x.body⟩

/-! ### The framework -/

/-- A network stack and a server framework. -/
structure Framework (μ : Type) where
  /-- A request as it arrives at some moment, or the words for one that is not sent. -/
  arrive : μ → Http.Request → Except String Arrival
  /-- The sizes of a request are within the limits. -/
  Fits : Http.Request → Prop
  /-- The variable segments of a path that matches a pattern, decoded, `none` for one that is not UTF-8. -/
  capture : List Segment → List String → Option (List (Option String))
  /-- Whether a filter takes a method. -/
  takes : Filter → Http.Method → Bool
  /-- What is said to a path whose variable segments cannot be read. -/
  badPath : List String → Rejection
  /-- The parameters of a listing, from a query. -/
  listParams : Option String → Except Rejection ListParams
  /-- The pet that a request asks to create. -/
  draft : Arrival → Except Rejection Draft
  /-- The body of a request. -/
  bytes : Arrival → Except Rejection (List UInt8)
  /-- The parts of form data in order, `none` for one that cannot be read. -/
  parts : Arrival → Except Rejection (List (Option Part))
  /-- Whether a number is a status. -/
  isStatus : Nat → Bool
  /-- The answer to a request with some method as it reaches the client, or the words for one that does not. -/
  respond : μ → Http.Method → Reply → Except String Received
  /-- The reason phrase of a status. -/
  reason : UInt16 → String

end ApiClient.PetStore
