import ApiClient.PetStore.Framework

/-!
# Routes

The paths of the pet store and the endpoints that they lead to, by method.
-/

namespace ApiClient.PetStore

/-- What the store does. -/
inductive Endpoint where
  | list | create | fetch | delete | echo | upload | status | greeting | brokenJson | untyped
  deriving DecidableEq

/-- The path patterns with the endpoints for the methods. -/
def routes : List (List Segment × List (Filter × Endpoint)) :=
  [([.literal "pets"], [(.get, .list), (.post, .create)]),
    ([.literal "pets", .variable "id"], [(.get, .fetch), (.delete, .delete)]),
    ([.literal "echo"], [(.any, .echo)]),
    ([.literal "upload"], [(.post, .upload)]),
    ([.literal "status", .variable "code"], [(.any, .status)]),
    ([.literal "greeting"], [(.get, .greeting)]),
    ([.literal "broken-json"], [(.get, .brokenJson)]),
    ([.literal "untyped"], [(.get, .untyped)])]

variable {μ : Type} (w : Framework μ) (a : Arrival)

/-- The endpoints that the path of a request leads to, with its variable segments. -/
def matched? : Option (List (Filter × Endpoint) × List (Option String)) :=
  routes.findSome? fun route => (w.capture route.1 a.path).map fun captured => (route.2, captured)

/-- The endpoint that a request is for, with the variable segments of its path, or what is said if there is none. -/
def route : Except Reply (Endpoint × List (Option String)) :=
  match matched? w a with
  | none => .error .noRoute
  | some (endpoints, captured) =>
    match endpoints.find? fun e => w.takes e.1 a.method with
    | some e => .ok (e.2, captured)
    | none => .error (.noMethod (endpoints.map Prod.fst))

end ApiClient.PetStore
