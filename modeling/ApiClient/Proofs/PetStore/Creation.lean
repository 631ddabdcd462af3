import ApiClient.Proofs.Json.RecordText
import ApiClient.Proofs.PetStore.Session

/-!
# A pet from its creation on

The JSON that a call sends is read as the name and the tag of a pet (`arrives_createWith`), so the call is answered
with a pet that has them and is kept from then on (`call_createWith`).  The response tells the path of the pet in a
header.  Until the pet is deleted, a call to that path is answered with it (`created_pet_fetched`).  A name that is
too long is refused (`created_pet_refused`).
-/

namespace ApiClient.PetStore

variable {μ : Type} {w : Framework μ}

/-! ### Calls that create pets -/

/-- The members of a pet that is to be created.  The tag is left out, `null` or a text. -/
def draftEntries (name : String) (tag : Option (Option String)) : List (String × Json) :=
  ("name", .str name) :: (tag.map fun t => ("tag", JsonModel.toJson t)).toList

/-- The call that creates a pet. -/
def createWith (name : String) (tag : Option (Option String)) : Descriptor :=
  (Descriptor.ofPath .post "/pets").apply (.jsonBody (.obj (draftEntries name tag)))

private theorem ofJson?_draftEntries (name : String) (tag : Option (Option String)) :
    JsonRecord.ofJson? (.obj (draftEntries name tag)) = some (⟨name, tag.join⟩ : Draft) := by
  rcases tag with _ | _ | tag
  all_goals
    simp [draftEntries, JsonRecord.ofJson?, Json.record?, Keyed.lookup, Json.Shape.ofJson?, Json.Shape.missing,
      JsonRecord.fields, JsonRecord.ofFields?, JsonModel.ofJson?, JsonModel.toJson, Json.asStr?]

private theorem fitsFields_draftEntries (name : String) (tag : Option (Option String)) :
    Json.FitsFields (JsonRecord.fields Draft) (draftEntries name tag) where
  distinct := by decide
  once := by cases tag <;> simp [draftEntries]
  known := by cases tag <;> simp [draftEntries, JsonRecord.fields]

private theorem sorted_draftEntries (name : String) (tag : Option (Option String)) :
    Json.SortedMembers (draftEntries name tag) := by
  rcases tag with _ | _ | tag <;> simp [draftEntries, JsonModel.toJson, Json.SortedMembers, Json.Sorted]

section
variable (address name : String) (tag : Option (Option String))

private theorem headers_createWith :
    ((createWith name tag).request (.ofAddress address)).headers =
      [("Accept", "application/json"), ("Content-Type", "application/json")] := rfl

private theorem bytes?_createWith :
    ((createWith name tag).request (.ofAddress address)).bytes? =
      some (Text.Utf8.bytes (Json.obj (draftEntries name tag)).render) := rfl

private theorem isSendable_createWith :
    Http.isSendable ((createWith name tag).request (.ofAddress address)).headers = true :=
  isSendable_requestHeaders address rfl (by rintro _ _ ⟨⟩)

private theorem cleanPath_createWith : Query.cleanPath (createWith name tag).path = pathText ["pets"] := by
  show Query.cleanPath "/pets" = _
  decide +kernel

/-- The content is declared once. -/
private theorem eq_contentType_of_mem {x : Http.Header}
    (hx : x ∈ ((createWith name tag).request (.ofAddress address)).headers)
    (hname : Text.SameName x.1 "Content-Type") :
    x = ("Content-Type", "application/json") := by
  have haccept : ¬Text.SameName "Accept" "Content-Type" := by decide +kernel
  rw [headers_createWith] at hx
  rcases List.mem_cons.1 hx with rfl | hx
  · exact absurd hname haccept
  · exact List.mem_singleton.1 hx

end

/-- The content of an arrival of the call is declared as JSON. -/
private theorem holds_contentType {address name : String} {tag : Option (Option String)} {segments : List String}
    {query : Option String} {a : Arrival}
    (hcarried : w.Carried ((createWith name tag).request (.ofAddress address)) segments query a) :
    Holds a.headers "content-type" "application/json" := by
  have hlower : Text.lower "Content-Type" = "content-type" := by decide +kernel
  have hmem : ("Content-Type", "application/json") ∈
      ((createWith name tag).request (.ofAddress address)).headers := by
    rw [headers_createWith]
    simp
  rw [← hlower]
  refine hcarried.headers (by rw [bytes?_createWith]; simp) _ hmem ?_ (by decide +kernel) (by decide +kernel)
  exact fun x hx hname => eq_contentType_of_mem address name tag hx hname

section
variable {address : String} (hw : w.Lawful address) (name : String) (tag : Option (Option String))
  (hfits : w.Fits ((createWith name tag).request (.ofAddress address)))
include hw hfits

/-- The request of the call arrives as one that creates the pet. -/
theorem arrives_createWith (m : μ) :
    ∃ a, w.arrive m ((createWith name tag).request (.ofAddress address)) = .ok a ∧ route w a = .ok (.create, []) ∧
      a.method = .post ∧ w.draft a = .ok ⟨name, tag.join⟩ := by
  obtain ⟨a, harrive, hcarried, hreadable⟩ := arrives_of_path hw.carries (cleanPath_createWith name tag) (by simp)
    (by decide) (isSendable_createWith address name tag) hfits m
  have hbody : a.body = Text.Utf8.encode (Json.obj (draftEntries name tag)).print := by
    rw [hcarried.body _ (bytes?_createWith address name tag), Text.Utf8.bytes, Json.render, String.toList_ofList]
  have hread : Json.documentBytes JsonRecord.read a.body = .ok (⟨name, tag.join⟩ : Draft) := by
    rw [hbody]
    exact JsonRecord.documentBytes_print (fitsFields_draftEntries name tag) (sorted_draftEntries name tag)
      (ofJson?_draftEntries name tag)
  have hdraft := hreadable.draft _ (holds_contentType hcarried) hread
  exact ⟨a, harrive, route_create hcarried hw.dispatches rfl rfl, hcarried.method, hdraft⟩

/-- The exchange creates the pet, and the response has it and tells its path. -/
theorem exchange_createWith (o : Occasion μ) (s : Store) :
    let p : Pet := ⟨o.fresh, name, tag.join⟩
    let e := (exchange w o ((createWith name tag).request (.ofAddress address)) s).1
    createdPet? w e = some p ∧ ∃ r : Http.Response, e.answer = .ok r ∧ r.status = 201 ∧
      Content.ofResponse r = .json (JsonModel.toJson p) ∧ r.headers.find? "location" = some (petPath p.id) := by
  intro p e
  obtain ⟨a, harrive, hroute, hmethod, hdraft⟩ := arrives_createWith hw name tag hfits o.moment
  obtain ⟨r, hrespond, hstatus, -, hcontent, hlocation⟩ := response_created hw.answers o.moment p
  have hhandle : handle w a o.fresh s = (createdReply p, s.insert p) := by
    rw [handle_of_route hroute, serve, create, hdraft]
  have he : e = ⟨(createWith name tag).request (.ofAddress address), .ok a, .ok r⟩ := by
    rw [show e = _ from congrArg Prod.fst (exchange_of_arrival harrive s), hhandle, hmethod, hrespond]
  rw [he]
  refine ⟨?_, r, rfl, hstatus, hcontent, hlocation⟩
  rw [createdPet?_of_create hroute, if_pos hstatus, hcontent]
  exact ofJson?_toJson p

/-- A call that sends what `createWith` sends, and has no messages of its own, succeeds with the pet and its path. -/
theorem call_createWith (occasions : Nat → Occasion μ) (service : Service) {d : Descriptor}
    (hrequest : d.request (.ofAddress address) = (createWith name tag).request (.ofAddress address))
    (herrors : d.errors = Keyed.empty) :
    let p : Pet := ⟨(occasions service.requests).fresh, name, tag.join⟩
    createdPet? w (exchange w (occasions service.requests) (d.request (.ofAddress address)) service.store).1 =
        some p ∧
      ∃ r : Http.Response, r.status = 201 ∧ Content.ofResponse r = .json (JsonModel.toJson p) ∧
        r.headers.find? "location" = some (petPath p.id) ∧
        ((storeTransport w occasions).call (.ofAddress address) d service).1.outcome =
          .ok (d.answer (d.url (.ofAddress address)) r) := by
  intro p
  obtain ⟨hcreated, r, hanswer, hstatus, hcontent, hlocation⟩ :=
    exchange_createWith hw name tag hfits (occasions service.requests) service.store
  rw [← hrequest] at hcreated hanswer
  have hmessage : ∀ m, d.messageFor? r.status = some m → m = "" := by
    rw [Descriptor.messageFor?, herrors, hstatus]
    rintro m ⟨⟩
  have hsuccess : 200 ≤ r.status ∧ r.status ≤ 299 := by
    rw [hstatus]
    decide
  have hinterpret := (d.interpret_eq_ok_iff (d.url (.ofAddress address)) r).2 ⟨hmessage, hsuccess⟩
  refine ⟨hcreated, r, hstatus, hcontent, hlocation, ?_⟩
  rw [Transport.call_eq, send_eq, hanswer]
  simp only [Descriptor.trace, Descriptor.outcome, hinterpret]
  rfl

end

section
variable {d : Descriptor} {r : Http.Response}

private theorem content_located {path header : String} (hfind : r.headers.find? "location" = some path)
    (hpath : path ≠ "") (hheader : Text.SameName header "Location") (hd : d.responseHeader = some header) :
    d.content r = .text path := by
  have hname : Text.SameName header "location" := hheader.trans (by decide +kernel)
  rw [← Http.Headers.find?_congr _ hname] at hfind
  exact (d.content_spec r).1 header _ hd (Http.Headers.find?_eq_some_iff.1 hfind) hpath

private theorem petPath_ne_empty (id : Uuid) : petPath id ≠ "" := by
  rw [petPath, Ne, String.append_eq_empty_iff]
  exact fun h => absurd h.1 (by decide)

end

/-! ### Calls that fetch pets -/

/-- The request for the pet with an identifier is small. -/
theorem fits_fetch {address : String} (hw : w.Carries address) (id : Uuid) :
    w.Fits ((Descriptor.ofPath .get (petPath id)).request (.ofAddress address)) := by
  have hlength : (pathText ["pets", id.toString]).length = 42 := by
    have hpets : "pets".toList.length = 4 := by decide
    rw [pathText, String.length_ofList]
    simp only [List.flatMap_cons, List.flatMap_nil, List.length_append, List.length_cons, List.length_nil, hpets,
      String.length_toList, Uuid.length_toString]
  have hheaders : ((Descriptor.ofPath .get (petPath id)).request (.ofAddress address)).headers =
      [("Accept", "application/json")] := rfl
  refine hw.small _ _ none (url_ofAddress (cleanPath_petPath id) []) rfl ?_ ?_ ?_
  · rw [hlength]
    decide
  · rw [hheaders]
    decide
  · rw [hheaders]
    decide

theorem fetched_of_find? {address : String} (hw : w.Lawful address) (occasions : Nat → Occasion μ) {service : Service}
    {id : Uuid} {p : Pet} (hfind : service.store.find? id = some p) :
    ∃ a, ((storeTransport w occasions).call (.ofAddress address) (.ofPath .get (petPath id)) service).1.outcome =
      .ok a ∧ a.status = 200 ∧ a.read Pet = some p := by
  have hsendable : Http.isSendable
      ((Descriptor.ofPath .get (petPath id)).requestHeaders (.ofAddress address)) = true :=
    isSendable_requestHeaders address rfl nofun
  have hplain : (Descriptor.ofPath .get (petPath id)).IsPlain := ⟨rfl, rfl⟩
  have houtcome := outcome_fetch hw occasions service hsendable (fits_fetch hw.carries id) hplain rfl rfl
  rw [hfind] at houtcome
  exact ⟨_, houtcome, rfl, ofJson?_toJson p⟩

/-! ### The pet in a session -/

section
variable {address : String} (hw : w.Lawful address) {occasions : Nat → Occasion μ}
  {calls later : List (Config × Descriptor)} {config : Config} {d : Descriptor} {p : Pet}
  (hcreated : createdPet? w (exchange w (occasions (session w occasions calls Service.start).2.requests)
    (d.request config) (session w occasions calls Service.start).2.store).1 = some p)
include hw hcreated

/-- The identifier of a pet that is created is that of no pet before. -/
theorem id_ne_of_created
    (hfresh : HandsOutOnce w (session w occasions (calls ++ [(config, d)]) Service.start).1) :
    ∀ q ∈ (session w occasions calls Service.start).2.store.pets, q.id ≠ p.id := by
  rw [session_append, session_cons, HandsOutOnce, List.filterMap_append, List.filterMap_cons, hcreated,
    List.map_append, List.nodup_append] at hfresh
  obtain ⟨hbefore, -, hapart⟩ := hfresh
  intro q hq
  obtain ⟨before, e, after, hlog, he, -⟩ := (mem_pets_iff_live hw occasions calls hbefore q).1 hq
  have hmem : e ∈ (session w occasions calls Service.start).1 := by
    rw [hlog]
    exact List.mem_append_right _ List.mem_cons_self
  exact hapart _ (List.mem_map_of_mem (List.mem_filterMap.2 ⟨e, hmem, he⟩)) _ List.mem_cons_self

/-- A pet that is created is found until its identifier is deleted. -/
theorem find?_of_created
    (hfresh : HandsOutOnce w (session w occasions (calls ++ (config, d) :: later) Service.start).1)
    (hkept : ∀ e ∈ (session w occasions later ((storeTransport w occasions).call config d
      (session w occasions calls Service.start).2).2).1, deletedId? w e ≠ some p.id) :
    (session w occasions later ((storeTransport w occasions).call config d
      (session w occasions calls Service.start).2).2).2.store.find? p.id = some p := by
  have hlive : Live w (session w occasions (calls ++ (config, d) :: later) Service.start).1 p := by
    rw [session_append, session_cons]
    exact ⟨_, _, _, rfl, hcreated, hkept⟩
  have hfind := find?_of_live hw occasions _ hfresh hlive
  rwa [session_append, session_cons] at hfind

end

/-- From any state that a session leads to, a pet is created with the name and the tag of the call, and with an
identifier that no pet before has, if the request is within the limits.  If the call asks for `Location`, in whatever
letter case, it gets the path of the pet, and a call to that path fetches the pet after whatever other calls, as long
as none deletes it.  Identifiers are taken to be handed out once. -/
theorem created_pet_fetched {address : String} (hw : w.Lawful address) (occasions : Nat → Occasion μ)
    (calls : List (Config × Descriptor)) (name : String) (tag : Option (Option String))
    (hfits : w.Fits ((createWith name tag).request (.ofAddress address))) {header : String}
    (hheader : Text.SameName header "Location") :
    let t := storeTransport w occasions
    let config := Config.ofAddress address
    let before := (session w occasions calls Service.start).2
    let create := createWith name tag
    let located := create.apply (.responseHeader header)
    ∃ p : Pet, p.name = name ∧ p.tag = tag.join ∧
      (∃ a, (t.call config create before).1.outcome = .ok a ∧ a.status = 201 ∧ a.read Pet = some p) ∧
      (HandsOutOnce w (session w occasions (calls ++ [(config, create)]) Service.start).1 →
        ∀ q ∈ before.store.pets, q.id ≠ p.id) ∧
      ∃ a path, (t.call config located before).1.outcome = .ok a ∧ a.status = 201 ∧ a.content = .text path ∧
        path = "/pets/" ++ p.id.toString ∧
        ∀ later, HandsOutOnce w (session w occasions (calls ++ (config, located) :: later) Service.start).1 →
          (∀ e ∈ (session w occasions later (t.call config located before).2).1, deletedId? w e ≠ some p.id) →
          let last := (session w occasions later (t.call config located before).2).2
          ∃ b, (t.call config (.ofPath .get path) last).1.outcome = .ok b ∧ b.status = 200 ∧ b.read Pet = some p := by
  intro t config before create located
  have hrequest : located.request config = create.request config := rfl
  obtain ⟨hcreated, r, hstatus, hcontent, -, houtcome⟩ :=
    call_createWith hw name tag hfits occasions before (d := create) rfl rfl
  obtain ⟨-, x, hstatus', -, hlocation, houtcome'⟩ :=
    call_createWith hw name tag hfits occasions before hrequest rfl
  refine ⟨_, rfl, rfl, ⟨_, houtcome, hstatus, ?_⟩, fun hfresh => id_ne_of_created hw hcreated hfresh, ?_⟩
  · have hread : (create.answer (create.url config) r).content = Content.ofResponse r := rfl
    rw [Answer.read, hread, hcontent]
    exact ofJson?_toJson _
  · refine ⟨_, petPath _, houtcome', hstatus', content_located hlocation (petPath_ne_empty _) hheader rfl, rfl, ?_⟩
    intro later hfresh hkept
    exact fetched_of_find? hw occasions (find?_of_created hw hcreated hfresh hkept)

/-- A session in which a pet is created. -/
def oneCreation : List (Config × Descriptor) := [(.ofAddress Loopback.address, createWith "Tom" none)]

theorem created_pet_fetched_second :
    let t := storeTransport loopback (Loopback.occasions 0)
    let config := Config.ofAddress Loopback.address
    let create := createWith "\"Rex\"" (some (some "é"))
    let located := create.apply (.responseHeader "lOCATION")
    let list := Descriptor.ofPath .get "/pets"
    let session := session loopback (Loopback.occasions 0)
    let before := (session oneCreation Service.start).2
    let last := (session [(config, list)] (t.call config located before).2).2
    loopback.Lawful Loopback.address ∧ loopback.Fits (create.request config) ∧ Text.SameName "lOCATION" "Location" ∧
      HandsOutOnce loopback (session (oneCreation ++ [(config, create)]) Service.start).1 ∧
      HandsOutOnce loopback (session (oneCreation ++ (config, located) :: [(config, list)]) Service.start).1 ∧
      ∃ p : Pet, p.name = "\"Rex\"" ∧ p.tag = some "é" ∧ (∀ q ∈ before.store.pets, q.id ≠ p.id) ∧
        ∃ b, (t.call config (.ofPath .get ("/pets/" ++ p.id.toString)) last).1.outcome = .ok b ∧
          b.read Pet = some p := by
  intro t config create located list session before last
  have hfits : loopback.Fits (create.request config) := by
    refine ⟨by decide +kernel, ?_, rfl⟩
    intro data hdata
    obtain rfl := Option.some.inj hdata
    decide +kernel
  have hheader : Text.SameName "lOCATION" "Location" := by decide +kernel
  have hcreate : HandsOutOnce loopback (session (oneCreation ++ [(config, create)]) Service.start).1 :=
    handsOutOnce_of_nodup loopback_lawful (by decide +kernel)
  have hlocate : HandsOutOnce loopback
      (session (oneCreation ++ (config, located) :: [(config, list)]) Service.start).1 :=
    handsOutOnce_of_nodup loopback_lawful (by decide +kernel)
  obtain ⟨p, hname, htag, -, hnew, -, path, -, -, -, rfl, hfetch⟩ := created_pet_fetched loopback_lawful
    (Loopback.occasions 0) oneCreation "\"Rex\"" (some (some "é")) hfits hheader
  have hkept : ∀ e ∈ (session [(config, list)] (t.call config located before).2).1,
      deletedId? loopback e ≠ some p.id := by
    have hnone : ∀ e ∈ (session [(config, list)] (t.call config located before).2).1,
        deletedId? loopback e = none := by
      decide +kernel
    intro e he
    rw [hnone e he]
    exact (Option.some_ne_none p.id).symm
  obtain ⟨b, hb, -, hread⟩ := hfetch _ hlocate hkept
  exact ⟨loopback_lawful, hfits, hheader, hcreate, hlocate, p, hname, htag, hnew hcreate, b, hb, hread⟩

/-! ### Names that are too long -/

/-- The text of a pet to be created is as long as its name at least. -/
theorem length_le_createWith (name : String) (tag : Option (Option String)) :
    name.length ≤ (Text.Utf8.bytes (Json.obj (draftEntries name tag)).render).length := by
  have hescape : ∀ c, Json.escapeChar c ≠ [] := by
    intro c
    unfold Json.escapeChar
    split
    · simp
    · split
      · split <;> simp
      · simp
  have hencode : ∀ c, Text.Utf8.encodeChar c ≠ [] := by
    intro c
    unfold Text.Utf8.encodeChar
    simp only
    repeat' split
    all_goals simp
  have hname := Text.length_le_flatMap hescape name.toList
  have htext := Text.length_le_flatMap hencode (Json.obj (draftEntries name tag)).print
  have hprint : (name.toList.flatMap Json.escapeChar).length ≤ (Json.obj (draftEntries name tag)).print.length := by
    simp only [draftEntries, Json.print, Json.printStr, List.length_cons, List.length_append]
    omega
  rw [String.length_toList] at hname
  rw [Text.Utf8.bytes, Text.Utf8.encode, Json.render, String.toList_ofList]
  omega

/-- A request to create a pet whose name is too long arrives, and is refused. -/
private theorem refused_createWith {name : String} (hname : Loopback.maxBody < name.length)
    (tag : Option (Option String)) (m : Loopback.Moment) :
    ∃ a, loopback.arrive m ((createWith name tag).request (.ofAddress Loopback.address)) = .ok a ∧
      a.method = .post ∧ ∀ fresh s, handle loopback a fresh s = (.refused Loopback.tooLong, s) := by
  have hurl : ((createWith name tag).request (.ofAddress Loopback.address)).url =
      (Loopback.Target.mk ["pets"] none).url := url_ofAddress (cleanPath_createWith name tag) []
  have hplain : (Loopback.Target.mk ["pets"] none).isPlain = true := by decide +kernel
  have hshort : 3 * (Loopback.Target.mk ["pets"] none).url.length ≤ Loopback.maxUrl := by decide +kernel
  have hsendable := isSendable_createWith Loopback.address name tag
  have hcarried := Loopback.carried_arrival m hplain hsendable
  have hroute := route_create hcarried loopback_lawful.dispatches rfl rfl
  have hlong : Loopback.maxBody < (Text.Utf8.bytes (Json.obj (draftEntries name tag)).render).length := by
    have hlength := length_le_createWith name tag
    omega
  have hdraft := Loopback.draft_of_long (bytes?_createWith _ name tag) hlong (holds_contentType hcarried)
  refine ⟨_, Loopback.arrive_of_short m hplain hurl (by rwa [hurl]) hsendable rfl, rfl, ?_⟩
  intro fresh s
  rw [handle_of_route hroute, serve, create, hdraft]

/-- A name of three million letters is refused. -/
theorem created_pet_refused :
    let name := String.ofList (List.replicate 3000000 'a')
    let outcome := ((storeTransport loopback (Loopback.occasions 0)).call (.ofAddress Loopback.address)
      (createWith name none) Service.start).1.outcome
    (∃ a, outcome = .error (.failed (.generic a)) ∧ a.status = 413) ∧ ∀ a, outcome ≠ .ok a := by
  intro name outcome
  have hname : Loopback.maxBody < name.length := by
    rw [String.length_ofList, List.length_replicate, Loopback.maxBody]
    omega
  obtain ⟨a, harrive, hmethod, hhandle⟩ := refused_createWith hname none (Loopback.occasions 0 0).moment
  obtain ⟨r, hrespond, hstatus, -⟩ := response_refused loopback_lawful.answers (Loopback.occasions 0 0).moment .post
    Loopback.tooLong (by decide) (by decide)
  have hmessage : ∀ m, (createWith name none).messageFor? r.status = some m → m = "" := by
    rw [hstatus]
    nofun
  have hfailed : ¬(200 ≤ r.status ∧ r.status ≤ 299) := by
    rw [hstatus]
    decide
  have houtcome : outcome = .error (.failed (.generic
      ((createWith name none).answer ((createWith name none).url (.ofAddress Loopback.address)) r))) := by
    have hinterpret := (Descriptor.interpret_eq_generic_iff _
      ((createWith name none).url (.ofAddress Loopback.address)) r).2 ⟨hmessage, hfailed⟩
    have hcall : outcome = replyOutcome loopback (Loopback.occasions 0 0).moment (createWith name none)
        ((createWith name none).url (.ofAddress Loopback.address))
        (handle loopback a (Loopback.occasions 0 0).fresh Store.empty).1 := (call_of_arrival harrive hmethod).1
    have hpost : (createWith name none).method = .post := rfl
    rw [hcall, hhandle, replyOutcome, hpost, hrespond, Descriptor.outcome, hinterpret]
    rfl
  constructor
  · exact ⟨_, houtcome, hstatus⟩
  · intro x hx
    cases hx.symm.trans houtcome

end ApiClient.PetStore
