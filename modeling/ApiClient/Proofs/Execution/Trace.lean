import ApiClient.Execution
import Mathlib.Data.List.Zip

/-!
# What happens during calls

What happens during a call is decided by the answer of the transport and by nothing that was there before it
(`Transport.call_eq`), so calls one after the other are the same calls each by itself (`Transport.calls_eq`).  The
warning is logged for exactly those responses that have a content type and no content (`Content.isUnreadable_iff`).
Together they give what is sent, what is logged and what comes out of every call of a sequence
(`Transport.calls_traced`).
-/

namespace ApiClient

/-! ### The warning -/

theorem Http.Headers.isSome_find? (headers : Http.Headers) (name : String) :
    (headers.find? name).isSome = headers.has name := by
  rw [Bool.eq_iff_iff, Http.Headers.find?, Option.isSome_map, List.find?_isSome, Http.Headers.has, List.any_eq_true]

namespace Content

/-- Text is never empty content, so empty content under a content type is JSON that cannot be read. -/
theorem isUnreadable_iff (r : Http.Response) :
    isUnreadable r = true ↔ r.headers.has "content-type" = true ∧ ofResponse r = .empty := by
  rw [← Http.Headers.isSome_find?, isUnreadable, ofResponse]
  cases r.headers.find? "content-type" with
  | none => simp
  | some contentType =>
    simp only [Option.isSome_some, true_and]
    cases Decoding.ofContentType contentType with
    | text => simp [ofBytes]
    | json => cases hread : Json.ofBytes? r.body <;> simp [ofBytes, hread]

end Content

/-! ### One call -/

/-- What happens during a call to which the transport gives an answer. -/
def Descriptor.trace (d : Descriptor) (config : Config) (answer : Except String Http.Response) : Trace where
  outcome := d.outcome (d.url config) answer
  sent := [d.request config]
  events := .sending d.method (d.url config) :: answerEvents (d.url config) answer

namespace Transport

variable {σ : Type}

theorem call_eq (t : Transport σ) (config : Config) (d : Descriptor) (s : σ) :
    t.call config d s =
      (d.trace config (t.send (d.request config) s).1, (t.send (d.request config) s).2) := by
  rw [call, d.build_eq]
  rfl

/-! ### Calls one after the other -/

/-- The answers to requests one after the other, and the state at the end. -/
def answers (t : Transport σ) : List Http.Request → σ → List (Except String Http.Response) × σ
  | [], s => ([], s)
  | r :: rest, s =>
    let (answer, s) := t.send r s
    let (later, s) := t.answers rest s
    (answer :: later, s)

theorem answers_cons (t : Transport σ) (r : Http.Request) (rest : List Http.Request) (s : σ) :
    t.answers (r :: rest) s =
      ((t.send r s).1 :: (t.answers rest (t.send r s).2).1, (t.answers rest (t.send r s).2).2) := rfl

theorem length_answers (t : Transport σ) (requests : List Http.Request) (s : σ) :
    (t.answers requests s).1.length = requests.length := by
  induction requests generalizing s with
  | nil => rfl
  | cons r rest ih => rw [answers_cons, List.length_cons, List.length_cons, ih]

/-- Calls one after the other are the calls by themselves, each with the answer to its request. -/
theorem calls_eq (t : Transport σ) (config : Config) (ds : List Descriptor) (s : σ) :
    t.calls config ds s =
      ((ds.zip (t.answers (ds.map fun d => d.request config) s).1).map (fun c => c.1.trace config c.2),
        (t.answers (ds.map fun d => d.request config) s).2) := by
  induction ds generalizing s with
  | nil => rfl
  | cons d rest ih =>
    rw [List.map_cons, answers_cons, List.zip_cons_cons, List.map_cons, calls, call_eq]
    dsimp only
    rw [ih]

/-! ### What a transport gets -/

/-- A transport that also keeps the requests it gets, in order. -/
def recorded (t : Transport σ) : Transport (σ × List Http.Request) where
  send r s := ((t.send r s.1).1, (t.send r s.1).2, s.2 ++ [r])

theorem answers_recorded (t : Transport σ) (requests got : List Http.Request) (s : σ) :
    t.recorded.answers requests (s, got) =
      ((t.answers requests s).1, (t.answers requests s).2, got ++ requests) := by
  induction requests generalizing s got with
  | nil => rw [List.append_nil]; rfl
  | cons r rest ih =>
    have hsend : t.recorded.send r (s, got) = ((t.send r s).1, (t.send r s).2, got ++ [r]) := rfl
    rw [answers_cons, hsend, ih, answers_cons, List.append_assoc, List.singleton_append]

/-- As many requests as there are answers in a list use up all of them. -/
theorem answers_scripted {requests : List Http.Request} {script : List (Except String Http.Response)}
    (h : requests.length = script.length) : scripted.answers requests script = (script, []) := by
  induction requests generalizing script with
  | nil => rw [List.eq_nil_of_length_eq_zero h.symm]; rfl
  | cons r rest ih =>
    cases script with
    | nil => cases h
    | cons answer later =>
      have hsend : scripted.send r (answer :: later) = (answer, later) := rfl
      rw [answers_cons, hsend, ih (Nat.succ.inj h)]

/-! ### The log -/

/-- A line of the log: its target, its level, its words, and its fields by name. -/
structure LogLine where
  target : String
  level : String
  message : String
  fields : List (String × String)

/-- The line that an event makes, `explain` being the words for a body that is no JSON. -/
def LogLine.ofEvent (explain : List UInt8 → String) (e : Event) : LogLine :=
  ⟨Event.target, e.level, e.message explain, e.fields⟩

/-- A call sends one request, and the answer to it decides what is logged and what the outcome is. -/
structure Follows (explain : List UInt8 → String) (config : Config) (d : Descriptor)
    (answer : Except String Http.Response) (trace : Trace) : Prop where
  sent : trace.sent = [d.request config]
  logged_failure : ∀ reason, answer = .error reason →
    trace.events.map (LogLine.ofEvent explain) =
      [⟨"apigen::http", "DEBUG", "sending request", [("method", d.method.name), ("url", d.url config)]⟩]
  logged_response : ∀ r, answer = .ok r →
    trace.events.map (LogLine.ofEvent explain) =
      [⟨"apigen::http", "DEBUG", "sending request", [("method", d.method.name), ("url", d.url config)]⟩,
        ⟨"apigen::http", "DEBUG", "response received",
          [("status", toString r.status.toNat), ("url", d.url config)]⟩] ++
      if r.headers.has "content-type" = true ∧ Content.ofResponse r = .empty then
        [⟨"apigen::http", "WARN", "failed to decode JSON response body: " ++ explain r.body,
          [("status", toString r.status.toNat)]⟩]
      else []
  failed : ∀ reason, answer = .error reason → trace.outcome = .error (.transport reason)
  passed : ∀ r a, answer = .ok r → d.interpret (d.url config) r = .ok a → trace.outcome = .ok a
  refused : ∀ r failure, answer = .ok r → d.interpret (d.url config) r = .error failure →
    trace.outcome = .error (.failed failure)
  alone : trace = (scripted.call config d [answer]).1

theorem follows_trace (explain : List UInt8 → String) (config : Config) (d : Descriptor)
    (answer : Except String Http.Response) : Follows explain config d answer (d.trace config answer) where
  sent := rfl
  logged_failure := by
    rintro reason rfl
    rfl
  logged_response := by
    rintro r rfl
    have hunreadable := Content.isUnreadable_iff r
    by_cases h : r.headers.has "content-type" = true ∧ Content.ofResponse r = .empty
    · simp only [Descriptor.trace, answerEvents, hunreadable.2 h, if_pos h, if_true]
      rfl
    · have hreadable : Content.isUnreadable r = false := Bool.eq_false_iff.2 fun hr => h (hunreadable.1 hr)
      simp only [Descriptor.trace, answerEvents, hreadable, if_neg h]
      rfl
  failed := by
    rintro reason rfl
    rfl
  passed := by
    rintro r a rfl h
    simp only [Descriptor.trace, Descriptor.outcome, h]
    rfl
  refused := by
    rintro r failure rfl h
    simp only [Descriptor.trace, Descriptor.outcome, h]
    rfl
  alone := by rw [call_eq]; rfl

/-- Of calls one after the other each sends its request once, in order, and goes on as if it were the only one: the
answer to its own request decides what is logged and what the outcome is.  A body that is no JSON is logged with the
words that `explain` has for it. -/
theorem calls_traced (explain : List UInt8 → String) (config : Config)
    (calls : List (Descriptor × Except String Http.Response)) :
    let run := scripted.recorded.calls config (calls.map Prod.fst) (calls.map Prod.snd, [])
    run.2 = ([], calls.map fun c => c.1.request config) ∧
      List.Forall₂ (fun c trace => Follows explain config c.1 c.2 trace) calls run.1 := by
  have hlength : (calls.map fun c => c.1.request config).length = (calls.map Prod.snd).length := by
    rw [List.length_map, List.length_map]
  have hrequests : (calls.map Prod.fst).map (fun d => d.request config) = calls.map fun c => c.1.request config := by
    rw [List.map_map]
    rfl
  have hcalls : (calls.map Prod.fst).zip (calls.map Prod.snd) = calls := (List.zip_of_prod rfl rfl).symm
  dsimp only
  rw [calls_eq, hrequests, answers_recorded, answers_scripted hlength, List.nil_append, hcalls]
  refine ⟨rfl, ?_⟩
  rw [List.forall₂_map_right_iff, List.forall₂_same]
  exact fun c _ => follows_trace explain config c.1 c.2

end Transport

end ApiClient
