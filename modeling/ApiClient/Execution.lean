import ApiClient.Assembly

/-!
# Executing calls

A call is executed by assembling its request, sending it once through a transport and interpreting the response.  A
transport is a state machine that answers each request with a response or a failure; the client itself keeps no state
between calls.  What happens is recorded: the outcome, the requests that were sent and the events that are logged.  A
call whose request cannot be made fails with nothing sent and nothing logged.
-/

namespace ApiClient

/-! ### Interpreting a response -/

namespace Descriptor

/-- The content of an answer: the value of the header that is asked for, if it is there and not empty, or the decoded
body. -/
def content (d : Descriptor) (r : Http.Response) : Content :=
  match d.responseHeader >>= Content.headerText r with
  | some value => .text value
  | none => Content.ofResponse r

/-- The answer that a response makes. -/
def answer (d : Descriptor) (url : String) (r : Http.Response) : Answer :=
  ⟨url, r.isOk, r.status, r.statusText, d.content r⟩

/-- The answer that a response makes, classified. -/
def interpret (d : Descriptor) (url : String) (r : Http.Response) : Except Failure Answer :=
  (StatusTable.withOverrides d.errors).check (d.answer url r)

end Descriptor

/-! ### Events -/

/-- What is logged during a call. -/
inductive Event where
  | sending (method : Http.Method) (url : String)
  | received (url : String) (status : UInt16)
  /-- The response declares JSON, and its body cannot be read as such. -/
  | unreadable (status : UInt16) (body : List UInt8)
  deriving DecidableEq

namespace Event

/-- The target that events are logged under. -/
def target : String := "apigen::http"

/-- The level of an event. -/
def level : Event → String
  | .unreadable _ _ => "WARN"
  | _ => "DEBUG"

/-- The words of an event, `explain` being those for a body that is no JSON. -/
def message (explain : List UInt8 → String) : Event → String
  | .sending _ _ => "sending request"
  | .received _ _ => "response received"
  | .unreadable _ body => "failed to decode JSON response body: " ++ explain body

/-- The fields of an event, by name. -/
def fields : Event → List (String × String)
  | .sending method url => [("method", method.name), ("url", url)]
  | .received url status => [("status", toString status.toNat), ("url", url)]
  | .unreadable status _ => [("status", toString status.toNat)]

end Event

/-! ### Transports -/

/-- A transport with states `σ`. -/
structure Transport (σ : Type) where
  send : Http.Request → σ → Except String Http.Response × σ

namespace Transport

/-- The transport that answers from a list, each entry once, and fails when the list is used up. -/
def scripted : Transport (List (Except String Http.Response)) where
  send _
    | [] => (.error "no answer left", [])
    | answer :: rest => (answer, rest)

end Transport

/-! ### Calls -/

/-- Why a call has no answer. -/
inductive CallError where
  /-- The response was classified as a failure. -/
  | failed (failure : Failure)
  /-- The transport failed. -/
  | transport (reason : String)
  deriving DecidableEq

/-- What happened during a call. -/
structure Trace where
  outcome : Except CallError Answer
  sent : List Http.Request
  events : List Event

/-- The events that a transport's answer causes. -/
def answerEvents (url : String) : Except String Http.Response → List Event
  | .error _ => []
  | .ok r => .received url r.status :: (if Content.isUnreadable r then [.unreadable r.status r.body] else [])

/-- The outcome that a transport's answer causes. -/
def Descriptor.outcome (d : Descriptor) (url : String) : Except String Http.Response → Except CallError Answer
  | .error reason => .error (.transport reason)
  | .ok r => (d.interpret url r).mapError .failed

/-- One call. -/
def Transport.call {σ : Type} (t : Transport σ) (config : Config) (d : Descriptor) (s : σ) : Trace × σ :=
  match d.build config with
  | .error failure => (⟨.error (.failed failure), [], []⟩, s)
  | .ok request =>
    let (answer, s) := t.send request s
    (⟨d.outcome request.url answer, [request],
      .sending request.method request.url :: answerEvents request.url answer⟩, s)

/-- Calls one after the other. -/
def Transport.calls {σ : Type} (t : Transport σ) (config : Config) : List Descriptor → σ → List Trace × σ
  | [], s => ([], s)
  | d :: rest, s =>
    let (trace, s) := t.call config d s
    let (traces, s) := t.calls config rest s
    (trace :: traces, s)

end ApiClient
