import ApiClient.Proofs.Classification
import ApiClient.Proofs.Execution.Trace
import ApiClient.Proofs.PetStore.Arrival
import ApiClient.Proofs.PetStore.Pet
import ApiClient.Proofs.PetStore.Store

/-!
# Calls to the store

What a call to fetch, delete or list pets comes to in any state of the store.  A call that arrives comes to what its
reply is classified as (`call_of_arrival`).  Fetching and deleting are decided by what the segment in the path is read
as (`outcome_fetch_segment`, `outcome_delete_segment`), and so, if it is a written identifier, by what is found under
that (`outcome_fetch`, `outcome_delete`).  A listing has the pets that its query asks for (`outcome_listing`).
-/

namespace ApiClient

/-- No message is given for the call and no response header is asked for. -/
def Descriptor.IsPlain (d : Descriptor) : Prop := d.errors = Keyed.empty ∧ d.responseHeader = none

namespace PetStore

open Text (Form.decode)

/-! ### Paths of pets -/

private theorem isPlainChar_of_mem_toString {id : Uuid} {c : Char} (h : c ∈ id.toString.toList) :
    isPlainChar c = true := by
  have hdigits : ∀ d : Fin 16, isPlainChar (Text.Hex.lowerDigit d) = true := by decide
  rcases Uuid.mem_toString h with rfl | ⟨d, rfl⟩
  · decide
  · exact hdigits d

theorem toString_plain (id : Uuid) : id.toString.toList.all isPlainChar = true :=
  List.all_eq_true.2 fun _ => isPlainChar_of_mem_toString

theorem toString_ne_empty (id : Uuid) : id.toString ≠ "" := by
  intro hempty
  have hne := (Uuid.spells_toString id).ne_nil
  rw [hempty] at hne
  exact hne rfl

theorem cleanPath_petPath (id : Uuid) : Query.cleanPath (petPath id) = pathText ["pets", id.toString] := by
  have hcolon : ':' ∉ (petPath id).toList := by
    rw [petPath, String.toList_append, List.mem_append, not_or]
    refine ⟨by decide +kernel, fun h => ?_⟩
    have hplain := isPlainChar_of_mem_toString h
    revert hplain
    decide
  rw [Query.cleanPath_of_not_mem hcolon, ← String.toList_inj, petPath, pathText, String.toList_append]
  simp

/-! ### Outcomes -/

/-- The outcome for JSON that was found. -/
def foundOutcome (url : String) (v : Json) : Except CallError Answer := .ok ⟨url, true, 200, "OK", .json v⟩

/-- The outcome for a pet that was deleted. -/
def deletedOutcome (url : String) : Except CallError Answer := .ok ⟨url, true, 204, "No Content", .empty⟩

/-- The outcome for something that is not there. -/
def notFoundOutcome (url : String) : Except CallError Answer :=
  .error (.failed (.status ⟨url, false, 404, "Not Found", .empty⟩ "Not Found"))

/-- The outcome of a call that is refused, with what is said to it. -/
def badRequestOutcome (url : String) (content : Content) : Except CallError Answer :=
  .error (.failed (.status ⟨url, false, 400, "Bad Request", content⟩ "Bad Request"))

/-- The outcome of fetching what is found under an identifier. -/
def fetchOutcome (url : String) : Option Pet → Except CallError Answer
  | some p => foundOutcome url (JsonModel.toJson p)
  | none => notFoundOutcome url

/-- The outcome of deleting what is found under an identifier. -/
def deleteOutcome (url : String) : Option Pet → Except CallError Answer
  | some _ => deletedOutcome url
  | none => notFoundOutcome url

/-! ### What responses are classified as -/

section
variable {d : Descriptor}

private theorem answer_of_isPlain (hd : d.IsPlain) (url : String) (r : Http.Response) :
    d.answer url r = ⟨url, r.isOk, r.status, r.statusText, Content.ofResponse r⟩ := by
  rw [Descriptor.answer, Descriptor.content, hd.2]
  rfl

private theorem messageFor?_of_isPlain (hd : d.IsPlain) (status : UInt16) :
    d.messageFor? status = StatusTable.usualMessage? status := by
  rw [Descriptor.messageFor?, hd.1]
  rfl

theorem messageFor?_of_plain_found (hd : d.IsPlain) (m : String) (hm : d.messageFor? 200 = some m) : m = "" := by
  rw [messageFor?_of_isPlain hd] at hm
  cases hm

/-- A success without a message is the answer of a call that asks for no response header. -/
theorem interpret_success (hheader : d.responseHeader = none) (url : String) {r : Http.Response}
    (hmessage : ∀ m, d.messageFor? r.status = some m → m = "") (hok : Http.isSuccess r.status = true) :
    d.interpret url r = .ok ⟨url, true, r.status, r.statusText, Content.ofResponse r⟩ := by
  have hanswer : d.answer url r = ⟨url, true, r.status, r.statusText, Content.ofResponse r⟩ := by
    rw [Descriptor.answer, Descriptor.content, hheader, Http.Response.isOk, hok]
    rfl
  rw [← hanswer, Descriptor.interpret_eq_ok_iff]
  exact ⟨hmessage, (Descriptor.isSuccess_iff r.status).1 hok⟩

/-- A usual message fails a plain call. -/
theorem interpret_usual (hd : d.IsPlain) (url : String) {r : Http.Response} {m : String}
    (husual : StatusTable.usualMessage? r.status = some m) (hm : m ≠ "") :
    d.interpret url r = .error (.status ⟨url, r.isOk, r.status, r.statusText, Content.ofResponse r⟩ m) := by
  rw [← answer_of_isPlain hd, Descriptor.interpret_eq_status_iff, messageFor?_of_isPlain hd]
  exact ⟨husual, hm⟩

end

/-! ### Responses to replies -/

section
variable {μ : Type} {w : Framework μ} (hw : w.Answers) (m : μ) (method : Http.Method)
include hw

/-- JSON in a success is in the response to it, and with it the location. -/
theorem response_json (status : UInt16) (location : Option String) (v : Json) (hmethod : method ≠ .head)
    (hsuccess : Http.isSuccess status = true) (hcontent : status ≠ 204 ∧ status ≠ 205)
    (hlocation : ∀ l ∈ location, Http.isTidy l = true) :
    ∃ r, (w.respond m method (.json status (location.map fun l => ("location", l)).toList v)).map
        (Received.response w.reason) = .ok r ∧ r.status = status ∧ r.statusText = w.reason status ∧
      Content.ofResponse r = Content.ofBytes .json (Text.Utf8.encode v.print) ∧
      ∀ l ∈ location, r.headers.find? "location" = some l := by
  obtain ⟨x, hrespond, hstatus, hbody, htype, hheld⟩ :=
    hw.json m method status location v hmethod hsuccess hcontent.1 hcontent.2 hlocation
  have hfind : (x.response w.reason).headers.find? "content-type" = some "application/json" :=
    find?_visible_of_holds htype
  refine ⟨x.response w.reason, by rw [hrespond]; rfl, hstatus, congrArg w.reason hstatus, ?_, ?_⟩
  · rw [Content.ofResponse, hfind]
    dsimp only
    rw [Decoding.ofContentType_json, Received.response, hbody]
  · exact fun l hl => find?_visible_of_holds (hheld l hl)

/-- The response to a status by itself has no content. -/
theorem response_bare (status : UInt16) (h : Http.isSuccess status = true ∨ 400 ≤ status ∧ status < 500) :
    ∃ r, (w.respond m method (.bare status)).map (Received.response w.reason) = .ok r ∧ r.status = status ∧
      r.statusText = w.reason status ∧ Content.ofResponse r = .empty := by
  obtain ⟨x, hrespond, hstatus, hlacks⟩ := hw.bare m method status h
  refine ⟨x.response w.reason, by rw [hrespond]; rfl, hstatus, congrArg w.reason hstatus, ?_⟩
  rw [Content.ofResponse, Received.response, find?_visible_of_lacks hlacks]

theorem response_refused (rejection : Rejection) (hlow : 400 ≤ rejection.status) (hhigh : rejection.status < 500) :
    ∃ r, (w.respond m method (.refused rejection)).map (Received.response w.reason) = .ok r ∧
      r.status = rejection.status ∧ r.statusText = w.reason rejection.status := by
  obtain ⟨x, hrespond, hstatus⟩ := hw.refused m method rejection hlow hhigh
  exact ⟨x.response w.reason, by rw [hrespond]; rfl, hstatus, congrArg w.reason hstatus⟩

end

/-! ### What replies are classified as -/

/-- The outcome of a call that is answered with a reply. -/
def replyOutcome {μ : Type} (w : Framework μ) (m : μ) (d : Descriptor) (url : String) (reply : Reply) :
    Except CallError Answer :=
  d.outcome url ((w.respond m d.method reply).map (Received.response w.reason))

section
variable {μ : Type} {w : Framework μ} (hw : w.Answers) (m : μ) {d : Descriptor} (url : String)
include hw

/-- JSON that is answered with status 200 is the content of the outcome as far as its text can be read. -/
theorem replyOutcome_json (hheader : d.responseHeader = none) (hmessage : ∀ m, d.messageFor? 200 = some m → m = "")
    (hmethod : d.method ≠ .head) (v : Json) :
    replyOutcome w m d url (.json 200 [] v) =
      .ok ⟨url, true, 200, "OK", Content.ofBytes .json (Text.Utf8.encode v.print)⟩ := by
  have hreason : w.reason 200 = "OK" := hw.reason (200, "OK") (by simp)
  obtain ⟨r, hrespond, hstatus, htext, hcontent, -⟩ :=
    response_json hw m d.method 200 none v hmethod (by decide) (by decide) nofun
  have hanswer : (w.respond m d.method (.json 200 [] v)).map (Received.response w.reason) = .ok r := hrespond
  rw [replyOutcome, hanswer, Descriptor.outcome,
    interpret_success hheader url (by rwa [hstatus]) (by rw [hstatus]; rfl), hstatus, htext, hreason, hcontent]
  rfl

theorem replyOutcome_found (hd : d.IsPlain) (hmethod : d.method ≠ .head) {v : Json}
    (hread : Json.ofBytes? (Text.Utf8.encode v.print) = some v) :
    replyOutcome w m d url (.json 200 [] v) = foundOutcome url v := by
  rw [replyOutcome_json hw m url hd.2 (messageFor?_of_plain_found hd) hmethod, Content.ofBytes, hread]
  rfl

theorem replyOutcome_notFound (hd : d.IsPlain) : replyOutcome w m d url (.bare 404) = notFoundOutcome url := by
  have hreason : w.reason 404 = "Not Found" := hw.reason (404, "Not Found") (by simp)
  obtain ⟨r, hrespond, hstatus, htext, hempty⟩ := response_bare hw m d.method 404 (.inr (by decide))
  have husual : StatusTable.usualMessage? r.status = some "Not Found" := by
    rw [hstatus]
    rfl
  rw [replyOutcome, hrespond, Descriptor.outcome, interpret_usual hd url husual (by decide), Http.Response.isOk,
    hstatus, htext, hreason, hempty]
  rfl

theorem replyOutcome_deleted (hd : d.IsPlain) : replyOutcome w m d url (.bare 204) = deletedOutcome url := by
  have hreason : w.reason 204 = "No Content" := hw.reason (204, "No Content") (by simp)
  obtain ⟨r, hrespond, hstatus, htext, hempty⟩ := response_bare hw m d.method 204 (.inl (by decide))
  have hmessage : ∀ m, d.messageFor? r.status = some m → m = "" := by
    rw [messageFor?_of_isPlain hd, hstatus]
    nofun
  rw [replyOutcome, hrespond, Descriptor.outcome, interpret_success hd.2 url hmessage (by rw [hstatus]; rfl), hstatus,
    htext, hreason, hempty]
  rfl

theorem replyOutcome_refused (hd : d.IsPlain) {rejection : Rejection} (h : rejection.status = 400) :
    ∃ content, replyOutcome w m d url (.refused rejection) = badRequestOutcome url content := by
  have hreason : w.reason 400 = "Bad Request" := hw.reason (400, "Bad Request") (by simp)
  obtain ⟨r, hrespond, hstatus, htext⟩ :=
    response_refused hw m d.method rejection (by rw [h]; decide) (by rw [h]; decide)
  rw [h] at hstatus htext
  have husual : StatusTable.usualMessage? r.status = some "Bad Request" := by
    rw [hstatus]
    rfl
  refine ⟨Content.ofResponse r, ?_⟩
  rw [replyOutcome, hrespond, Descriptor.outcome, interpret_usual hd url husual (by decide), Http.Response.isOk,
    hstatus, htext, hreason]
  rfl

/-- The reply to fetching what a segment names. -/
theorem replyOutcome_fetch (hreads : w.Reads) (hd : d.IsPlain) (hmethod : d.method ≠ .head) (a : Arrival)
    (segment : String) (s : Store) :
    (∀ id, Uuid.parse? segment = some id →
      replyOutcome w m d url (fetch w a [some segment] s) = fetchOutcome url (s.find? id)) ∧
    (Uuid.parse? segment = none →
      ∃ content, replyOutcome w m d url (fetch w a [some segment] s) = badRequestOutcome url content) := by
  have hsegment : segmentId? [some segment] = Uuid.parse? segment := rfl
  constructor
  · intro id hid
    rw [fetch, hsegment, hid]
    dsimp only
    cases s.find? id with
    | none => exact replyOutcome_notFound hw m url hd
    | some p =>
      rw [fetchOutcome, toJson_eq_written]
      exact replyOutcome_found hw m url hd hmethod (ofBytes?_pet p)
  · intro hnone
    rw [fetch, hsegment, hnone]
    exact replyOutcome_refused hw m url hd (hreads.badPath a.path)

theorem replyOutcome_delete (hreads : w.Reads) (hd : d.IsPlain) (a : Arrival) (segment : String) (s : Store) :
    (∀ id, Uuid.parse? segment = some id →
      replyOutcome w m d url (delete w a [some segment] s).1 = deleteOutcome url (s.find? id)) ∧
    (Uuid.parse? segment = none →
      ∃ content, replyOutcome w m d url (delete w a [some segment] s).1 = badRequestOutcome url content) := by
  have hsegment : segmentId? [some segment] = Uuid.parse? segment := rfl
  constructor
  · intro id hid
    rw [delete, hsegment, hid]
    dsimp only
    cases s.find? id with
    | none => exact replyOutcome_notFound hw m url hd
    | some p => exact replyOutcome_deleted hw m url hd
  · intro hnone
    rw [delete, hsegment, hnone]
    exact replyOutcome_refused hw m url hd (hreads.badPath a.path)

end

/-! ### Calls that arrive -/

section
variable {μ : Type} {w : Framework μ} {occasions : Nat → Occasion μ} {service : Service} {config : Config}
  {d : Descriptor} {a : Arrival}

/-- A call whose request arrives comes to what its reply is classified as. -/
theorem call_of_arrival (harrive : w.arrive (occasions service.requests).moment (d.request config) = .ok a)
    (hmethod : a.method = d.method) :
    ((storeTransport w occasions).call config d service).1.outcome =
        replyOutcome w (occasions service.requests).moment d (d.url config)
          (handle w a (occasions service.requests).fresh service.store).1 ∧
      ((storeTransport w occasions).call config d service).2.store =
        (handle w a (occasions service.requests).fresh service.store).2 := by
  rw [Transport.call_eq, send_eq, exchange_of_arrival harrive, hmethod]
  exact ⟨rfl, rfl⟩

/-- A call whose request is not sent comes to the failure of that. -/
theorem outcome_of_failure {reason : String}
    (harrive : w.arrive (occasions service.requests).moment (d.request config) = .error reason) :
    ((storeTransport w occasions).call config d service).1.outcome = .error (.transport reason) := by
  rw [Transport.call_eq, send_eq, exchange_of_failure harrive]
  rfl

end

/-- What is left when a pet was deleted. -/
theorem delete_store {μ : Type} (w : Framework μ) (a : Arrival) (captured : List (Option String)) (s : Store) :
    (delete w a captured s).2 = (segmentId? captured).elim s s.erase := by
  rw [delete]
  cases segmentId? captured with
  | none => rfl
  | some id =>
    dsimp only [Option.elim]
    cases hfind : s.find? id with
    | none => exact (Store.erase_of_find?_none hfind).symm
    | some p => rfl

section
variable {μ : Type} {w : Framework μ} {address : String} (hw : w.Lawful address) (occasions : Nat → Occasion μ)
  (service : Service) {d : Descriptor}
  (hsendable : Http.isSendable (d.requestHeaders (.ofAddress address)) = true)
  (hfits : w.Fits (d.request (.ofAddress address)))
include hw hsendable hfits

/-! ### The pet that a segment names -/

section
variable {segment : String} (hpath : Query.cleanPath d.path = pathText ["pets", segment])
  (hplain : segment.toList.all isPlainChar = true)
include hpath hplain

private theorem arrives_of_segment (m : μ) :
    ∃ a, w.arrive m (d.request (.ofAddress address)) = .ok a ∧
      w.Carried (d.request (.ofAddress address)) ["pets", segment] (queryOf d.query) a := by
  have hall : ∀ s ∈ ["pets", segment], s.toList.all isPlainChar = true := by
    intro s hs
    rcases List.mem_cons.1 hs with rfl | hs
    · decide
    · rw [List.mem_singleton.1 hs]
      exact hplain
  obtain ⟨a, harrive, hcarried, -⟩ := arrives_of_path hw.carries hpath (by simp) hall hsendable hfits m
  exact ⟨a, harrive, hcarried⟩

variable (hne : segment ≠ "")
include hne

/-- A call to fetch what a segment names is answered with that, and nothing changes. -/
theorem call_fetch_segment (hmethod : d.method = .get) :
    ∃ a, ((storeTransport w occasions).call (.ofAddress address) d service).1.outcome =
        replyOutcome w (occasions service.requests).moment d (d.url (.ofAddress address))
          (fetch w a [some segment] service.store) ∧
      ((storeTransport w occasions).call (.ofAddress address) d service).2.store = service.store := by
  obtain ⟨a, harrive, hcarried⟩ :=
    arrives_of_segment hw hsendable hfits hpath hplain (occasions service.requests).moment
  have hroute := route_fetch hcarried hw.dispatches hne rfl hmethod
  obtain ⟨houtcome, hstore⟩ := call_of_arrival harrive hcarried.method
  rw [handle_of_route hroute] at houtcome hstore
  exact ⟨a, houtcome, hstore⟩

theorem call_delete_segment (hmethod : d.method = .delete) :
    ∃ a, ((storeTransport w occasions).call (.ofAddress address) d service).1.outcome =
        replyOutcome w (occasions service.requests).moment d (d.url (.ofAddress address))
          (delete w a [some segment] service.store).1 ∧
      ((storeTransport w occasions).call (.ofAddress address) d service).2.store =
        (Uuid.parse? segment).elim service.store service.store.erase := by
  obtain ⟨a, harrive, hcarried⟩ :=
    arrives_of_segment hw hsendable hfits hpath hplain (occasions service.requests).moment
  have hroute := route_delete hcarried hw.dispatches hne rfl hmethod
  obtain ⟨houtcome, hstore⟩ := call_of_arrival harrive hcarried.method
  rw [handle_of_route hroute] at houtcome hstore
  exact ⟨a, houtcome, hstore.trans (delete_store w a [some segment] service.store)⟩

end

variable (hd : d.IsPlain)
include hd

/-! ### The pet with an identifier -/

section
variable {id : Uuid} (hpath : d.path = petPath id)
include hpath

theorem outcome_fetch (hmethod : d.method = .get) :
    ((storeTransport w occasions).call (.ofAddress address) d service).1.outcome =
      fetchOutcome (d.url (.ofAddress address)) (service.store.find? id) := by
  obtain ⟨a, houtcome, -⟩ := call_fetch_segment hw occasions service hsendable hfits (hpath ▸ cleanPath_petPath id)
    (toString_plain id) (toString_ne_empty id) hmethod
  rw [houtcome]
  exact (replyOutcome_fetch hw.answers _ _ hw.reads hd (by rw [hmethod]; decide) a _ _).1 id (Uuid.parse?_toString id)

theorem outcome_delete (hmethod : d.method = .delete) :
    ((storeTransport w occasions).call (.ofAddress address) d service).1.outcome =
      deleteOutcome (d.url (.ofAddress address)) (service.store.find? id) := by
  obtain ⟨a, houtcome, -⟩ := call_delete_segment hw occasions service hsendable hfits (hpath ▸ cleanPath_petPath id)
    (toString_plain id) (toString_ne_empty id) hmethod
  rw [houtcome]
  exact (replyOutcome_delete hw.answers _ _ hw.reads hd a _ _).1 id (Uuid.parse?_toString id)

end

/-! ### Listings -/

/-- A listing has the pets with the tag that the query asks for. -/
theorem outcome_listing (hmethod : d.method = .get) (hpath : d.path = "/pets") (params : ListParams)
    (hparams : ∀ q : Option String, Form.decode (q.getD "").toList = Query.flatten d.query →
      w.listParams q = .ok params) :
    ((storeTransport w occasions).call (.ofAddress address) d service).1.outcome =
      foundOutcome (d.url (.ofAddress address))
        (.arr ((listing params.tag params.limit service.store.pets).map JsonModel.toJson)) := by
  have hclean : Query.cleanPath d.path = pathText ["pets"] := by
    rw [hpath]
    decide +kernel
  obtain ⟨a, harrive, hcarried, -⟩ :=
    arrives_of_path hw.carries hclean (by simp) (by decide) hsendable hfits (occasions service.requests).moment
  have hroute := route_list hcarried hw.dispatches rfl hmethod
  have hdecode : Form.decode (a.query.getD "").toList = Query.flatten d.query :=
    hcarried.pairs.trans (decode_queryOf d.query)
  have hjson : (listing params.tag params.limit service.store.pets).map JsonModel.toJson =
      (listing params.tag params.limit service.store.pets).map JsonRecord.written :=
    List.map_congr_left fun p _ => toJson_eq_written p
  rw [(call_of_arrival harrive hcarried.method).1, handle_of_route hroute, serve, list, hparams a.query hdecode,
    hjson]
  exact replyOutcome_found hw.answers _ _ hd (by rw [hmethod]; decide) (ofBytes?_pets _)

theorem outcome_list (hmethod : d.method = .get) (hpath : d.path = "/pets") (hquery : Query.flatten d.query = []) :
    ((storeTransport w occasions).call (.ofAddress address) d service).1.outcome =
      foundOutcome (d.url (.ofAddress address))
        (.arr ((listing none none service.store.pets).map JsonModel.toJson)) := by
  refine outcome_listing hw occasions service hsendable hfits hd hmethod hpath ⟨none, none⟩ ?_
  intro q hq
  exact hw.reads.listParams_nil q (hq.trans hquery)

end

end PetStore

end ApiClient
