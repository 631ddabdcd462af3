import ApiClient.Descriptor.Step
import ApiClient.Proofs.Execution.Trace

/-!
# What depends on the token

The token of a configuration is read in one place, for one header (`Config.authorization_eq`).  So a call with another
token sends the same request up to that header, logs the same and comes to the same (`sameButToken_trace`), and so do
calls one after the other as long as they are answered alike (`token_adds_one_header`).
-/

namespace ApiClient

/-- The header that a token brings: none if it is absent or empty. -/
def tokenHeader : Option String → Http.Headers
  | none => []
  | some token => if token = "" then [] else [("Authorization", "Bearer " ++ token)]

theorem Config.authorization_eq (config : Config) : config.authorization = tokenHeader config.token := by
  rw [authorization, bearerToken]
  cases config.token with
  | none => rfl
  | some token => by_cases h : token = "" <;> simp [tokenHeader, Option.filter_some, h]

/-- Two traces differ at most in the header that a token brings: `a` to the first, `b` to the second. -/
structure SameButToken (a b : Option String) (x y : Trace) : Prop where
  outcome : x.outcome = y.outcome
  events : x.events = y.events
  sent : ∃ r r' before after, x.sent = [r] ∧ y.sent = [r'] ∧ r.method = r'.method ∧ r.url = r'.url ∧
    r.payload = r'.payload ∧ r.headers = before ++ tokenHeader a ++ after ∧
      r'.headers = before ++ tokenHeader b ++ after

namespace Descriptor

variable (d : Descriptor) {c₁ c₂ : Config} (hbase : c₁.baseUrl = c₂.baseUrl)
include hbase

theorem url_congr : d.url c₁ = d.url c₂ := by
  rw [url, url, hbase]

theorem sameButToken_trace (answer : Except String Http.Response) :
    SameButToken c₁.token c₂.token (d.trace c₁ answer) (d.trace c₂ answer) where
  outcome := by
    show d.outcome (d.url c₁) answer = d.outcome (d.url c₂) answer
    rw [d.url_congr hbase]
  events := by
    show Event.sending d.method (d.url c₁) :: answerEvents (d.url c₁) answer =
      .sending d.method (d.url c₂) :: answerEvents (d.url c₂) answer
    rw [d.url_congr hbase]
  sent := by
    refine ⟨d.request c₁, d.request c₂, mergedHeaders d.headers, d.contentTypeHeader, rfl, rfl, rfl,
      d.url_congr hbase, rfl, ?_, ?_⟩
    · rw [← Config.authorization_eq]
      rfl
    · rw [← Config.authorization_eq]
      rfl

/-- Tokens that bring the same header make no difference at all. -/
theorem trace_congr (htoken : tokenHeader c₁.token = tokenHeader c₂.token) (answer : Except String Http.Response) :
    d.trace c₁ answer = d.trace c₂ answer := by
  have hrequest : d.request c₁ = d.request c₂ := by
    rw [request, request, requestHeaders, requestHeaders, Config.authorization_eq, Config.authorization_eq, htoken,
      d.url_congr hbase]
  rw [trace, trace, hrequest, d.url_congr hbase]

end Descriptor

/-- Calls with two tokens that are answered alike come to the same and log the same, and every request is the same up
to one header for the token.  No token is the same as an empty one. -/
theorem token_adds_one_header {σ τ : Type} (t : Transport σ) (u : Transport τ) {c₁ c₂ : Config}
    (hbase : c₁.baseUrl = c₂.baseUrl) (ds : List Descriptor) (s : σ) (s' : τ)
    (hanswers : (t.answers (ds.map fun d => d.request c₁) s).1 = (u.answers (ds.map fun d => d.request c₂) s').1) :
    let first := (t.calls c₁ ds s).1
    let second := (u.calls c₂ ds s').1
    first.length = ds.length ∧ List.Forall₂ (SameButToken c₁.token c₂.token) first second ∧
      (c₁.token = none → c₂.token = some "" → first = second) := by
  dsimp only
  rw [Transport.calls_eq, Transport.calls_eq, ← hanswers]
  refine ⟨?_, ?_, ?_⟩
  · rw [List.length_map, List.length_zip, Transport.length_answers, List.length_map, Nat.min_self]
  · rw [List.forall₂_map_left_iff, List.forall₂_map_right_iff, List.forall₂_same]
    exact fun c _ => c.1.sameButToken_trace hbase c.2
  · intro hnone hempty
    have htoken : tokenHeader c₁.token = tokenHeader c₂.token := by
      rw [hnone, hempty]
      rfl
    exact List.map_congr_left fun c _ => c.1.trace_congr hbase htoken c.2

/-- Calls that are refused, that fail, and that have an `Authorization` of the caller. -/
def signedCalls : List Descriptor :=
  [(Descriptor.ofPath .get "/pets").apply (.header "authorization" "Basic eDp5"),
    (Descriptor.ofPath .post "/pets").apply (.body (.text "rex"))]

theorem token_adds_one_header_signed :
    let script : List (Except String Http.Response) := [.ok ⟨404, "Not Found", [], []⟩, .error "down"]
    let c₁ : Config := ⟨"http://x", some "t0k"⟩
    let c₂ : Config := ⟨"http://x", none⟩
    let first := (Transport.scripted.calls c₁ signedCalls script).1
    let second := (Transport.scripted.calls c₂ signedCalls script).1
    c₁.baseUrl = c₂.baseUrl ∧
      (Transport.scripted.answers (signedCalls.map fun d => d.request c₁) script).1 =
        (Transport.scripted.answers (signedCalls.map fun d => d.request c₂) script).1 ∧
      List.Forall₂ (SameButToken (some "t0k") none) first second ∧
      first.map Trace.outcome =
        [.error (.failed (.status ⟨"http://x/pets", false, 404, "Not Found", .empty⟩ "Not Found")),
          .error (.transport "down")] := by
  intro script c₁ c₂ first second
  have hbase : c₁.baseUrl = c₂.baseUrl := rfl
  have hanswers : (Transport.scripted.answers (signedCalls.map fun d => d.request c₁) script).1 =
      (Transport.scripted.answers (signedCalls.map fun d => d.request c₂) script).1 := rfl
  refine ⟨hbase, hanswers, ?_, by decide +kernel⟩
  exact (token_adds_one_header .scripted .scripted hbase signedCalls script script hanswers).2.1

end ApiClient
