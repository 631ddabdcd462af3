import ApiClient.PetStore.Laws
import ApiClient.PetStore.Server
import ApiClient.Proofs.PetStore.Uuid
import ApiClient.Proofs.Query

/-!
# Calls that arrive

A call over the base `http://` with an address has a URL that keeps the segments of its path and the pairs of its
query (`url_ofAddress`), so it arrives where the framework carries requests to the address (`arrives_of_path`).  The
paths `/pets`, `/pets/` with a segment, `/echo` and `/upload` lead to the endpoints of their methods (`route_list` and
those after it).
-/

namespace ApiClient

/-- The configuration that sends calls to an address without a token. -/
def Config.ofAddress (address : String) : Config := ⟨"http://" ++ address, none⟩

namespace PetStore

open Text (Form.decode)

/-! ### URLs -/

/-- The query that is sent for some parameters. -/
def queryOf (params : List (String × Json)) : Option String :=
  if Query.flatten params = [] then none else some (String.ofList (Query.joinPairs (Query.flatten params)))

theorem queryOf_eq_none_iff {params : List (String × Json)} : queryOf params = none ↔ Query.flatten params = [] := by
  unfold queryOf
  split <;> simp_all

theorem decode_queryOf (params : List (String × Json)) :
    Form.decode ((queryOf params).getD "").toList = Query.flatten params := by
  unfold queryOf
  split
  · rename_i hnone
    rw [hnone]
    rfl
  · rename_i hsome
    rw [Option.getD_some, String.toList_ofList, Query.form_decode_joinPairs hsome]

theorem isPairsChar_of_mem_queryOf (params : List (String × Json)) :
    ∀ q ∈ queryOf params, q.toList.all isPairsChar = true := by
  unfold queryOf
  split
  · nofun
  · intro q hq
    obtain rfl := Option.some.inj hq
    rw [String.toList_ofList, List.all_eq_true]
    intro c hc
    have hother : ∀ d ∈ ['%', '&', '='], isPairsChar d = true := Text.forall_mem_of_all (by decide)
    rcases Query.mem_joinPairs hc with hkept | rfl | rfl | rfl
    · rw [isPairsChar, hkept, Bool.true_or]
    · exact hother _ (by decide)
    · exact hother _ (by decide)
    · exact hother _ (by decide)

theorem url_ofAddress {address path : String} {segments : List String}
    (hpath : Query.cleanPath path = pathText segments) (params : List (String × Json)) :
    Query.url ("http://" ++ address) path params = urlText address segments (queryOf params) := by
  have htext : Query.text params = ((queryOf params).map fun q => "?" ++ q).getD "" := by
    rw [← String.toList_inj, Query.toList_text, Query.ofPairs, queryOf]
    by_cases h : Query.flatten params = []
    · rw [if_pos h, if_pos (by rw [h]; rfl)]
      rfl
    · rw [if_neg h, if_neg (by simpa using h)]
      simp
  rw [Query.url, urlText, hpath, htext]

/-! ### Requests to an address -/

section
variable {μ : Type} {w : Framework μ} {address : String} {d : Descriptor}

private theorem contentTypeHeader_cases (hbody : ∀ data t, d.body ≠ some (.binary data (some t))) :
    d.contentTypeHeader = [] ∨ d.contentTypeHeader = [("Content-Type", "text/plain")] ∨
      d.contentTypeHeader = [("Content-Type", "application/json")] := by
  unfold Descriptor.contentTypeHeader
  split
  · exact .inl rfl
  · rcases hd : d.body with _ | ⟨data, _ | t⟩ | s | v
    · exact .inl rfl
    · exact .inl rfl
    · exact absurd hd (hbody data t)
    · by_cases hpresent : (Body.text s).isPresent = true
      · simp [Body.contentType?, hpresent]
      · simp [Body.contentType?, hpresent]
    · by_cases hpresent : (Body.json v).isPresent = true
      · simp [Body.contentType?, hpresent]
      · simp [Body.contentType?, hpresent]

theorem requestHeaders_ofAddress (hheaders : d.headers = []) :
    d.requestHeaders (.ofAddress address) = ("Accept", "application/json") :: d.contentTypeHeader := by
  rw [Descriptor.requestHeaders, hheaders]
  rfl

/-- All headers can be sent if none is the caller's and no content type is. -/
theorem isSendable_requestHeaders (address : String) (hheaders : d.headers = [])
    (hbody : ∀ data t, d.body ≠ some (.binary data (some t))) :
    Http.isSendable (d.requestHeaders (.ofAddress address)) = true := by
  rw [requestHeaders_ofAddress hheaders]
  rcases contentTypeHeader_cases hbody with h | h | h
  · rw [h]
    decide +kernel
  · rw [h]
    decide +kernel
  · rw [h]
    decide +kernel

/-- A call to a path of plain segments arrives. -/
theorem arrives_of_path (hw : w.Carries address) {segments : List String}
    (hpath : Query.cleanPath d.path = pathText segments) (hne : segments ≠ [])
    (hplain : ∀ s ∈ segments, s.toList.all isPlainChar = true)
    (hsendable : Http.isSendable (d.requestHeaders (.ofAddress address)) = true)
    (hfits : w.Fits (d.request (.ofAddress address))) (m : μ) :
    ∃ a, w.arrive m (d.request (.ofAddress address)) = .ok a ∧
      w.Carried (d.request (.ofAddress address)) segments (queryOf d.query) a ∧
      w.Readable (d.request (.ofAddress address)) a :=
  hw.arrives m _ segments _ (url_ofAddress hpath d.query) hne hplain (isPairsChar_of_mem_queryOf d.query)
    hsendable hfits

end

/-! ### Routes -/

section
variable {μ : Type} {w : Framework μ} {r : Http.Request} {segments : List String} {query : Option String}
  {a : Arrival}

/-- A method of the endpoints that a path leads to is for the first that takes it. -/
private theorem route_of_matched {endpoints : List (Filter × Endpoint)} {captured : List (Option String)}
    (hmatched : matched? w a = some (endpoints, captured)) (e : Filter × Endpoint)
    (hfind : (endpoints.find? fun e => w.takes e.1 a.method) = some e) : route w a = .ok (e.2, captured) := by
  rw [route, hmatched]
  simp only [hfind]

section
variable (h : w.Carried r segments query a)
include h

private theorem capture_literal (text : String) (hword : text.toList.all isWordChar = true) :
    w.capture [.literal text] a.path = if segments = [text] then some [] else none :=
  h.literal [text] (by simpa using hword)

private theorem matched?_pets (hsegments : segments = ["pets"]) :
    matched? w a = some ([(.get, .list), (.post, .create)], []) := by
  have hpets := capture_literal h "pets" (by decide)
  rw [if_pos hsegments] at hpets
  simp only [matched?, routes, List.findSome?_cons, hpets, Option.map_some]

private theorem matched?_pet {segment : String} (hne : segment ≠ "") (hsegments : segments = ["pets", segment]) :
    matched? w a = some ([(.get, .fetch), (.delete, .delete)], [some segment]) := by
  have hpets := capture_literal h "pets" (by decide)
  rw [hsegments, if_neg (by simp)] at hpets
  have hpet : w.capture [.literal "pets", .variable "id"] a.path = some [some segment] :=
    h.variable_last ["pets"] "id" segment (by decide) hne hsegments
  simp only [matched?, routes, List.findSome?_cons, hpets, hpet, Option.map_none, Option.map_some]

private theorem matched?_echo (hsegments : segments = ["echo"]) : matched? w a = some ([(.any, .echo)], []) := by
  have hpets := capture_literal h "pets" (by decide)
  have hpet : w.capture [.literal "pets", .variable "id"] a.path = none := h.length _ (by rw [hsegments]; decide)
  have hecho := capture_literal h "echo" (by decide)
  rw [hsegments, if_neg (by decide)] at hpets
  rw [if_pos hsegments] at hecho
  simp only [matched?, routes, List.findSome?_cons, hpets, hpet, hecho, Option.map_none, Option.map_some]

private theorem matched?_upload (hsegments : segments = ["upload"]) :
    matched? w a = some ([(.post, .upload)], []) := by
  have hpets := capture_literal h "pets" (by decide)
  have hpet : w.capture [.literal "pets", .variable "id"] a.path = none := h.length _ (by rw [hsegments]; decide)
  have hecho := capture_literal h "echo" (by decide)
  have hupload := capture_literal h "upload" (by decide)
  rw [hsegments, if_neg (by decide)] at hpets hecho
  rw [if_pos hsegments] at hupload
  simp only [matched?, routes, List.findSome?_cons, hpets, hpet, hecho, hupload, Option.map_none, Option.map_some]

variable (hw : w.Dispatches)
include hw

theorem route_list (hsegments : segments = ["pets"]) (hmethod : r.method = .get) : route w a = .ok (.list, []) := by
  have htakes : w.takes .get a.method = true := (hw.get _).2 (.inl (h.method.trans hmethod))
  exact route_of_matched (matched?_pets h hsegments) (.get, .list) (by simp [htakes])

theorem route_create (hsegments : segments = ["pets"]) (hmethod : r.method = .post) :
    route w a = .ok (.create, []) := by
  have hpost : a.method = .post := h.method.trans hmethod
  have hget : w.takes .get a.method = false := by
    rw [Bool.eq_false_iff, Ne, hw.get, hpost]
    decide
  have htakes : w.takes .post a.method = true := (hw.post _).2 hpost
  exact route_of_matched (matched?_pets h hsegments) (.post, .create) (by simp [hget, htakes])

theorem route_fetch {segment : String} (hne : segment ≠ "") (hsegments : segments = ["pets", segment])
    (hmethod : r.method = .get) : route w a = .ok (.fetch, [some segment]) := by
  have htakes : w.takes .get a.method = true := (hw.get _).2 (.inl (h.method.trans hmethod))
  exact route_of_matched (matched?_pet h hne hsegments) (.get, .fetch) (by simp [htakes])

theorem route_delete {segment : String} (hne : segment ≠ "") (hsegments : segments = ["pets", segment])
    (hmethod : r.method = .delete) : route w a = .ok (.delete, [some segment]) := by
  have hdelete : a.method = .delete := h.method.trans hmethod
  have hget : w.takes .get a.method = false := by
    rw [Bool.eq_false_iff, Ne, hw.get, hdelete]
    decide
  have htakes : w.takes .delete a.method = true := (hw.delete _).2 hdelete
  exact route_of_matched (matched?_pet h hne hsegments) (.delete, .delete) (by simp [hget, htakes])

theorem route_echo (hsegments : segments = ["echo"]) : route w a = .ok (.echo, []) :=
  route_of_matched (matched?_echo h hsegments) (.any, .echo) (by simp [hw.any])

theorem route_upload (hsegments : segments = ["upload"]) (hmethod : r.method = .post) :
    route w a = .ok (.upload, []) := by
  have htakes : w.takes .post a.method = true := (hw.post _).2 (h.method.trans hmethod)
  exact route_of_matched (matched?_upload h hsegments) (.post, .upload) (by simp [htakes])

end

/-- A request leads to an endpoint by a method that is given for it. -/
theorem takes_of_route {endpoint : Endpoint} {captured : List (Option String)}
    (hroute : route w a = .ok (endpoint, captured)) :
    ∃ filter, (∃ entry ∈ routes, (filter, endpoint) ∈ entry.2) ∧ w.takes filter a.method = true := by
  unfold route at hroute
  split at hroute
  · cases hroute
  · rename_i endpoints captured' hmatched
    split at hroute
    · rename_i e hfind
      cases hroute
      obtain ⟨entry, hentry, hcapture⟩ := List.exists_of_findSome?_eq_some hmatched
      obtain ⟨_, -, heq⟩ := Option.map_eq_some_iff.1 hcapture
      cases heq
      exact ⟨e.1, ⟨entry, hentry, List.mem_of_find?_eq_some hfind⟩, by simpa using List.find?_some hfind⟩
    · cases hroute

theorem method_of_route_create (hw : w.Dispatches) {captured : List (Option String)}
    (hroute : route w a = .ok (.create, captured)) : a.method = .post := by
  obtain ⟨filter, ⟨entry, hentry, hmem⟩, htakes⟩ := takes_of_route hroute
  have hpost : ∀ entry ∈ routes, ∀ e ∈ entry.2, e.2 = .create → e.1 = .post := by decide
  obtain rfl : filter = .post := hpost entry hentry _ hmem rfl
  exact (hw.post _).1 htakes

/-- What is replied on an endpoint. -/
theorem handle_of_route {endpoint : Endpoint} {captured : List (Option String)}
    (hroute : route w a = .ok (endpoint, captured)) (fresh : Uuid) (s : Store) :
    handle w a fresh s = serve w a fresh captured s endpoint := by
  rw [handle, hroute]

end

/-! ### Exchanges -/

section
variable {μ : Type} {w : Framework μ} {o : Occasion μ} {r : Http.Request}

theorem exchange_of_arrival {a : Arrival} (h : w.arrive o.moment r = .ok a) (s : Store) :
    exchange w o r s =
      (⟨r, .ok a, (w.respond o.moment a.method (handle w a o.fresh s).1).map (Received.response w.reason)⟩,
        (handle w a o.fresh s).2) := by
  rw [exchange, h]

theorem exchange_of_failure {reason : String} (h : w.arrive o.moment r = .error reason) (s : Store) :
    exchange w o r s = (⟨r, .error reason, .error reason⟩, s) := by
  rw [exchange, h]

theorem request_exchange (s : Store) : (exchange w o r s).1.request = r := by
  rw [exchange]
  split <;> rfl

theorem send_eq (occasions : Nat → Occasion μ) (service : Service) :
    (storeTransport w occasions).send r service =
      ((exchange w (occasions service.requests) r service.store).1.answer,
        ⟨(exchange w (occasions service.requests) r service.store).2, service.requests + 1⟩) := rfl

end

end PetStore

end ApiClient
