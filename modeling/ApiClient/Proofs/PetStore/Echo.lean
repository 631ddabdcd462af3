import ApiClient.Proofs.Descriptor.BodyType
import ApiClient.Proofs.Keyed
import ApiClient.Proofs.PetStore.Calls
import ApiClient.Proofs.PetStore.EchoText
import ApiClient.Proofs.PetStore.Loopback

/-!
# The echo of a request

What the store sees of a request that arrives reflects the description of the call (`reflects_arrival`): its method,
the pairs of its query, its body as text, and the content type that the body implies.  The names of the headers are
not the key of embedded text (`key_ne_of_arrival`), so the echo comes back from its text, and a call to `/echo`
reports these (`echo_reflects_call`).
-/

namespace ApiClient.PetStore

open Json
open Text (SameName)

/-! ### What is seen of a call -/

/-- The text that is seen of a body. -/
def seenText : Option Body → String
  | none => ""
  | some (.text s) => s
  | some (.json v) => if Body.isTruthy v then v.render else ""
  | some (.binary data _) => String.ofList (Text.Utf8.decodeLossy data)

/-- The content type that is seen of a body without a declared type. -/
def seenType : Option Body → Option String
  | some (.text s) => if s = "" then none else some "text/plain"
  | some (.json v) => if Body.isTruthy v then some "application/json" else none
  | _ => none

private theorem seenType_cases (b : Option Body) :
    seenType b = none ∨ seenType b = some "text/plain" ∨ seenType b = some "application/json" := by
  unfold seenType
  split
  · split <;> simp
  · split <;> simp
  · simp

/-- An echo has the method, the pairs of the query and the body of a call, and the headers that go with them. -/
structure Reflects (d : Descriptor) (e : Echo) : Prop where
  method : e.method = d.method.name
  noQuery : e.query = none ↔ Query.flatten d.query = []
  pairs : ∀ q, e.query = some q → Text.Form.decode q.toList = Query.flatten d.query
  body : e.body = seenText d.body
  accept : e.headers.find? "accept" = some "application/json"
  contentType : e.headers.find? "content-type" = seenType d.body

private theorem decodeLossy_text (s : String) : String.ofList (Text.Utf8.decodeLossy (Text.Utf8.bytes s)) = s := by
  rw [Text.Utf8.bytes, Text.Utf8.decodeLossy_encode, String.ofList_toList]

section
variable {d : Descriptor} (hform : d.form = none)
include hform

/-- The bytes that are sent are seen as the text of the body. -/
private theorem bytes?_request (config : Config) :
    ∃ data, (d.request config).bytes? = some data ∧
      String.ofList (Text.Utf8.decodeLossy data) = seenText d.body := by
  have hrequest : (d.request config).payload = d.payload := rfl
  rw [Http.Request.bytes?, hrequest]
  rcases Descriptor.payload_cases hform with ⟨hnone, habsent⟩ | ⟨b, hsome, hbody, hpresent⟩
  · refine ⟨[], by rw [hnone], ?_⟩
    cases hbody : d.body with
    | none => rfl
    | some b =>
      have hb := habsent b hbody
      cases b with
      | binary data declared => cases hb
      | text s =>
        have hs : s = "" := by simpa [Body.isPresent] using hb
        rw [hs]
        rfl
      | json v =>
        have hfalsy : Body.isTruthy v = false := hb
        rw [seenText, hfalsy]
        rfl
  · rw [hsome, hbody]
    cases b with
    | binary data declared => exact ⟨data, rfl, rfl⟩
    | text s => exact ⟨_, rfl, decodeLossy_text s⟩
    | json v =>
      have htruthy : Body.isTruthy v = true := hpresent
      rw [seenText, if_pos htruthy]
      exact ⟨_, rfl, decodeLossy_text v.render⟩

private theorem contentTypeHeader_eq (hbody : ∀ data t, d.body ≠ some (.binary data (some t))) :
    d.contentTypeHeader = ((seenType d.body).map fun t => ("Content-Type", t)).toList := by
  rw [Descriptor.contentTypeHeader, hform]
  cases hd : d.body with
  | none => rfl
  | some b =>
    cases b with
    | binary data declared =>
      cases declared with
      | none => rfl
      | some t => exact absurd hd (hbody data t)
    | text s => by_cases hs : s = "" <;> simp [Body.contentType?, Body.isPresent, hs, seenType]
    | json v => cases hv : Body.isTruthy v <;> simp [Body.contentType?, Body.isPresent, hv, seenType]

private theorem headers_request (address : String) (hheaders : d.headers = [])
    (hbody : ∀ data t, d.body ≠ some (.binary data (some t))) :
    (d.request (.ofAddress address)).headers =
      ("Accept", "application/json") :: ((seenType d.body).map fun t => ("Content-Type", t)).toList :=
  (requestHeaders_ofAddress hheaders).trans (congrArg _ (contentTypeHeader_eq hform hbody))

end

/-! ### Headers that are seen -/

section
variable {a : Arrival} {name value : String}

private theorem find?_echoOf (a : Arrival) (body : List UInt8) (name : String) :
    (echoOf a body).headers.find? name = Keyed.last? name (visible a.headers) :=
  (Keyed.find?_insertAll Keyed.empty (visible a.headers) name).trans Option.or_none

private theorem mem_visible {h : Http.Header} : h ∈ visible a.headers ↔ (h.1, some h.2) ∈ a.headers := by
  rw [visible, List.mem_filterMap]
  constructor
  · rintro ⟨x, hx, hmap⟩
    obtain ⟨v, hv, rfl⟩ := Option.map_eq_some_iff.1 hmap
    rwa [← hv]
  · intro hmem
    exact ⟨_, hmem, rfl⟩

/-- The last of several headers with one value has that value. -/
private theorem find?_echoOf_of_holds (h : Holds a.headers name value) (body : List UInt8) :
    (echoOf a body).headers.find? name = some value := by
  rw [find?_echoOf]
  cases hlast : Keyed.last? name (visible a.headers) with
  | none =>
    have hseen : (name, value) ∈ visible a.headers := mem_visible.2 h.mem
    exact absurd (List.mem_map_of_mem hseen) (Keyed.last?_eq_none_iff.1 hlast)
  | some v =>
    obtain ⟨before, after, hsplit, -⟩ := Keyed.last?_eq_some_iff.1 hlast
    have hmem : (name, v) ∈ visible a.headers := by rw [hsplit]; simp
    exact h.only _ (mem_visible.1 hmem) (SameName.refl name)

private theorem find?_echoOf_of_lacks (h : Lacks a.headers name) (body : List UInt8) :
    (echoOf a body).headers.find? name = none := by
  rw [find?_echoOf, Keyed.last?_eq_none_iff]
  intro hname
  obtain ⟨x, hx, rfl⟩ := List.mem_map.1 hname
  exact h _ (mem_visible.1 hx) (SameName.refl x.1)

end

/-! ### What arrives -/

section
variable {μ : Type} {w : Framework μ} {address : String} {d : Descriptor} {segments : List String} {a : Arrival}
  (harrival : w.Carried (d.request (.ofAddress address)) segments (queryOf d.query) a)
include harrival

/-- No name that is reported is the key of embedded text. -/
private theorem key_ne_of_arrival (body : List UInt8) :
    ∀ entry ∈ (echoOf a body).headers.entries, entry.1 ≠ embeddedKey := by
  have hkey : Http.isToken embeddedKey = false := by decide
  intro entry hentry heq
  rcases Keyed.mem_of_mem_insertAll hentry with hentry | hentry
  · have htoken := harrival.names _ (mem_visible.1 hentry)
    rw [heq, hkey] at htoken
    cases htoken
  · cases hentry

variable (hheaders : d.headers = []) (hform : d.form = none)
  (hbody : ∀ data t, d.body ≠ some (.binary data (some t)))
include hheaders hform hbody

/-- The two headers have different names, so each arrives with its value. -/
private theorem holds_accept : Holds a.headers "accept" "application/json" := by
  obtain ⟨data, hdata, -⟩ := bytes?_request hform (.ofAddress address)
  have hdistinct : ¬SameName "Content-Type" "Accept" := by decide +kernel
  have hlower : Text.lower "Accept" = "accept" := by decide +kernel
  have hlist := headers_request hform address hheaders hbody
  have hmem : ("Accept", "application/json") ∈ (d.request (.ofAddress address)).headers := by
    rw [hlist]
    exact List.mem_cons_self
  have honly : ∀ x ∈ (d.request (.ofAddress address)).headers,
      SameName x.1 "Accept" → x = ("Accept", "application/json") := by
    intro x hx hname
    rw [hlist] at hx
    rcases List.mem_cons.1 hx with rfl | hx
    · rfl
    · obtain ⟨t, -, rfl⟩ := Option.map_eq_some_iff.1 (Option.mem_toList.1 hx)
      exact absurd hname hdistinct
  have hheld := harrival.headers (by rw [hdata]; simp) _ hmem honly (by rw [hlower]; decide) (by decide +kernel)
  rwa [hlower] at hheld

private theorem holds_contentType_of_seen {t : String} (ht : seenType d.body = some t) :
    Holds a.headers "content-type" t := by
  obtain ⟨data, hdata, -⟩ := bytes?_request hform (.ofAddress address)
  have hdistinct : ¬SameName "Accept" "Content-Type" := by decide +kernel
  have hlower : Text.lower "Content-Type" = "content-type" := by decide +kernel
  have htidy : Http.isTidy t = true := by
    rcases seenType_cases d.body with h | h | h
    · cases ht.symm.trans h
    · obtain rfl := Option.some.inj (ht.symm.trans h)
      decide +kernel
    · obtain rfl := Option.some.inj (ht.symm.trans h)
      decide +kernel
  have hlist : (d.request (.ofAddress address)).headers = [("Accept", "application/json"), ("Content-Type", t)] := by
    rw [headers_request hform address hheaders hbody, ht]
    rfl
  have honly : ∀ x ∈ (d.request (.ofAddress address)).headers,
      SameName x.1 "Content-Type" → x = ("Content-Type", t) := by
    intro x hx hname
    rw [hlist, List.mem_cons, List.mem_singleton] at hx
    rcases hx with rfl | rfl
    · exact absurd hname hdistinct
    · rfl
  have hheld := harrival.headers (by rw [hdata]; simp) ("Content-Type", t) (by rw [hlist]; simp) honly
    (by rw [hlower]; decide) htidy
  rwa [hlower] at hheld

private theorem lacks_contentType (hnone : seenType d.body = none) : Lacks a.headers "content-type" := by
  obtain ⟨data, hdata, -⟩ := bytes?_request hform (.ofAddress address)
  refine harrival.no_type (by rw [hdata]; simp) ?_
  rw [headers_request hform address hheaders hbody, hnone]
  decide +kernel

/-- What a store sees of a call. -/
theorem reflects_arrival {data : List UInt8}
    (hdata : String.ofList (Text.Utf8.decodeLossy data) = seenText d.body) : Reflects d (echoOf a data) := by
  constructor
  case method => exact congrArg Http.Method.name harrival.method
  case noQuery => exact harrival.no_query.trans queryOf_eq_none_iff
  case pairs =>
    intro q hq
    have hpairs := harrival.pairs.trans (decode_queryOf d.query)
    have hquery : a.query = some q := hq
    rwa [hquery, Option.getD_some] at hpairs
  case body => exact hdata
  case accept => exact find?_echoOf_of_holds (holds_accept harrival hheaders hform hbody) data
  case contentType =>
    cases htype : seenType d.body with
    | none => exact find?_echoOf_of_lacks (lacks_contentType harrival hheaders hform hbody htype) data
    | some t => exact find?_echoOf_of_holds (holds_contentType_of_seen harrival hheaders hform hbody htype) data

end

/-! ### Calls -/

/-- A call to `/echo` without headers of the caller and without form fields reports what the store saw of it, which
reflects the description of the call. -/
theorem echo_reflects_call {μ : Type} {w : Framework μ} {address : String} (hw : w.Lawful address) {d : Descriptor}
    (hpath : d.path = "/echo") (hmethod : d.method ≠ .head) (hheaders : d.headers = []) (hform : d.form = none)
    (hbody : ∀ data t, d.body ≠ some (.binary data (some t))) (hheader : d.responseHeader = none)
    (herrors : ∀ m, d.errors.find? 200 = some m → m = "") (hfits : w.Fits (d.request (.ofAddress address)))
    (occasions : Nat → Occasion μ) (service : Service) :
    ∃ a e, ((storeTransport w occasions).call (.ofAddress address) d service).1.outcome = .ok a ∧
      a.status = 200 ∧ a.read Echo = some e ∧ Reflects d e := by
  have hclean : Query.cleanPath d.path = pathText ["echo"] := by
    rw [hpath]
    decide +kernel
  have hmessage : ∀ m, d.messageFor? 200 = some m → m = "" := by
    intro m hm
    have husual : StatusTable.usualMessage? 200 = none := by decide
    rw [Descriptor.messageFor?, husual, Option.or_none] at hm
    exact herrors m hm
  obtain ⟨a, harrive, hcarried, hreadable⟩ := arrives_of_path hw.carries hclean (by simp) (by decide)
    (isSendable_requestHeaders address hheaders hbody) hfits (occasions service.requests).moment
  obtain ⟨data, hdata, hseen⟩ := bytes?_request hform (.ofAddress address)
  obtain ⟨e, he⟩ : ∃ e, e = echoOf a data := ⟨_, rfl⟩
  have hecho : echo w a = .json 200 [] (JsonRecord.written e) := by
    rw [echo, hreadable.bytes data hdata, he]
  have hkeys : ∀ entry ∈ e.headers.entries, entry.1 ≠ embeddedKey := by
    rw [he]
    exact key_ne_of_arrival hcarried data
  have hreflects : Reflects d e := by
    rw [he]
    exact reflects_arrival hcarried hheaders hform hbody hseen
  have houtcome : ((storeTransport w occasions).call (.ofAddress address) d service).1.outcome =
      foundOutcome (d.url (.ofAddress address)) (object (JsonRecord.members e)) := by
    rw [(call_of_arrival harrive hcarried.method).1, handle_of_route (route_echo hcarried hw.dispatches rfl), serve,
      hecho, replyOutcome_json hw.answers _ _ hheader hmessage hmethod, Content.ofBytes, ofBytes?_echo hkeys]
    rfl
  exact ⟨⟨_, true, 200, "OK", .json (object (JsonRecord.members e))⟩, e, houtcome, rfl, ofJson?_object_members e,
    hreflects⟩

/-- A call with a query and a text in which escaped characters occur. -/
def echoCall : Descriptor :=
  ((Descriptor.ofPath .put "/echo").apply (.query "q" (.arr [.str "a&b = c+%é", .null]))).apply
    (.body (.text "\"x\"\n\x7f é"))

theorem echo_reflects_call_escapes :
    loopback.Lawful Loopback.address ∧ echoCall.path = "/echo" ∧ echoCall.method ≠ .head ∧ echoCall.headers = [] ∧
      echoCall.form = none ∧ echoCall.responseHeader = none ∧
      loopback.Fits (echoCall.request (.ofAddress Loopback.address)) ∧
      ∃ a e, ((storeTransport loopback (Loopback.occasions 0)).call (.ofAddress Loopback.address) echoCall
          Service.start).1.outcome = .ok a ∧ a.read Echo = some e ∧ e.method = "PUT" ∧ e.body = "\"x\"\n\x7f é" ∧
        e.headers.find? "content-type" = some "text/plain" := by
  have hmethod : echoCall.method ≠ .head := by decide
  have hfits : loopback.Fits (echoCall.request (.ofAddress Loopback.address)) := by
    refine ⟨by decide +kernel, ?_, rfl⟩
    intro data hdata
    obtain rfl := Option.some.inj hdata
    decide +kernel
  obtain ⟨a, e, houtcome, -, hread, hreflects⟩ := echo_reflects_call loopback_lawful
    (show echoCall.path = "/echo" from rfl) hmethod rfl rfl nofun rfl nofun hfits (Loopback.occasions 0) Service.start
  refine ⟨loopback_lawful, rfl, hmethod, rfl, rfl, rfl, hfits, a, e, houtcome, hread, hreflects.method,
    hreflects.body, ?_⟩
  rw [hreflects.contentType]
  decide

end ApiClient.PetStore
