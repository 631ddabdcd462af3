import ApiClient.Proofs.PetStore.Calls
import ApiClient.Proofs.PetStore.Loopback

/-!
# Sessions with the store

A session is a sequence of calls of any kind, each with a configuration of its own, to a store that begins empty.  A
pet is live after a session if some request to create a pet was answered with it and status 201, and no later request
to delete its identifier was answered with 204.  If no identifier was handed out twice, the store holds exactly the
live pets (`mem_pets_iff_live`), and they are what calls to fetch, delete and list pets report (`live_pets_observed`),
unless the request does not get through (`live_pets_unseen`).  It is enough that the identifiers for the requests are
all different (`handsOutOnce_of_nodup`).
-/

namespace ApiClient.PetStore

variable {μ : Type} {w : Framework μ}

/-- The exchanges of calls one after the other, each with a configuration of its own, and the service at the end. -/
def session (w : Framework μ) (occasions : Nat → Occasion μ) :
    List (Config × Descriptor) → Service → List Exchange × Service
  | [], service => ([], service)
  | (config, d) :: rest, service =>
    let (log, last) := session w occasions rest ((storeTransport w occasions).call config d service).2
    ((exchange w (occasions service.requests) (d.request config) service.store).1 :: log, last)

section
variable (occasions : Nat → Occasion μ)

theorem service_of_call (config : Config) (d : Descriptor) (service : Service) :
    ((storeTransport w occasions).call config d service).2 =
      ⟨(exchange w (occasions service.requests) (d.request config) service.store).2, service.requests + 1⟩ := by
  rw [Transport.call_eq, send_eq]

theorem session_cons (config : Config) (d : Descriptor) (rest : List (Config × Descriptor)) (service : Service) :
    session w occasions ((config, d) :: rest) service =
      ((exchange w (occasions service.requests) (d.request config) service.store).1 ::
        (session w occasions rest ((storeTransport w occasions).call config d service).2).1,
      (session w occasions rest ((storeTransport w occasions).call config d service).2).2) := rfl

theorem session_append (before after : List (Config × Descriptor)) (service : Service) :
    session w occasions (before ++ after) service =
      ((session w occasions before service).1 ++
        (session w occasions after (session w occasions before service).2).1,
      (session w occasions after (session w occasions before service).2).2) := by
  induction before generalizing service with
  | nil => rfl
  | cons call rest ih =>
    obtain ⟨config, d⟩ := call
    rw [List.cons_append, session_cons, session_cons, ih]
    rfl

end

/-- Every exchange of a session is begun by its request on some occasion. -/
theorem exchange_of_mem_session {occasions : Nat → Occasion μ} {calls : List (Config × Descriptor)}
    {service : Service}
    {e : Exchange} (h : e ∈ (session w occasions calls service).1) : ∃ o s, e = (exchange w o e.request s).1 := by
  induction calls generalizing service with
  | nil => cases h
  | cons call rest ih =>
    obtain ⟨config, d⟩ := call
    rw [session_cons] at h
    rcases List.mem_cons.1 h with rfl | h
    · exact ⟨_, _, by rw [request_exchange]⟩
    · exact ih h

/-! ### What an exchange did -/

/-- The pet with which a request to create one was answered. -/
def createdPet? (w : Framework μ) (e : Exchange) : Option Pet :=
  match e.arrival, e.answer with
  | .ok a, .ok r =>
    match route w a with
    | .ok (.create, _) => if r.status = 201 then (Content.ofResponse r).read Pet else none
    | _ => none
  | _, _ => none

/-- The identifier that a request succeeded to delete. -/
def deletedId? (w : Framework μ) (e : Exchange) : Option Uuid :=
  match e.arrival, e.answer with
  | .ok a, .ok r =>
    match route w a with
    | .ok (.delete, captured) => if r.status = 204 then segmentId? captured else none
    | _ => none
  | _, _ => none

section
variable {request : Http.Request} {a : Arrival} {answer : Except String Http.Response}
  {captured : List (Option String)}

private theorem createdPet?_of_route (h : ∀ captured, route w a ≠ .ok (.create, captured)) :
    createdPet? w ⟨request, .ok a, answer⟩ = none := by
  cases answer with
  | error reason => rfl
  | ok r =>
    unfold createdPet?
    dsimp only
    split
    · rename_i captured hroute
      exact absurd hroute (h captured)
    · rfl

private theorem deletedId?_of_route (h : ∀ captured, route w a ≠ .ok (.delete, captured)) :
    deletedId? w ⟨request, .ok a, answer⟩ = none := by
  cases answer with
  | error reason => rfl
  | ok r =>
    unfold deletedId?
    dsimp only
    split
    · rename_i captured hroute
      exact absurd hroute (h captured)
    · rfl

theorem createdPet?_of_create {r : Http.Response} (hroute : route w a = .ok (.create, captured)) :
    createdPet? w ⟨request, .ok a, .ok r⟩ = if r.status = 201 then (Content.ofResponse r).read Pet else none := by
  simp only [createdPet?, hroute]

theorem deletedId?_of_delete {r : Http.Response} (hroute : route w a = .ok (.delete, captured)) :
    deletedId? w ⟨request, .ok a, .ok r⟩ = if r.status = 204 then segmentId? captured else none := by
  simp only [deletedId?, hroute]

end

/-- A pet was created in the course of some exchanges and not deleted afterwards. -/
def Live (w : Framework μ) (log : List Exchange) (p : Pet) : Prop :=
  ∃ before e after, log = before ++ e :: after ∧ createdPet? w e = some p ∧ ∀ x ∈ after, deletedId? w x ≠ some p.id

/-- No identifier was handed out twice in the course of some exchanges. -/
def HandsOutOnce (w : Framework μ) (log : List Exchange) : Prop := ((log.filterMap (createdPet? w)).map Pet.id).Nodup

theorem live_cons {e : Exchange} {log : List Exchange} {p : Pet} :
    Live w (e :: log) p ↔
      (createdPet? w e = some p ∧ ∀ x ∈ log, deletedId? w x ≠ some p.id) ∨ Live w log p := by
  constructor
  · rintro ⟨before, x, after, heq, hcreated, hafter⟩
    cases before with
    | nil =>
      obtain ⟨rfl, rfl⟩ := List.cons.inj heq
      exact .inl ⟨hcreated, hafter⟩
    | cons y before =>
      obtain ⟨rfl, rfl⟩ := List.cons.inj heq
      exact .inr ⟨before, x, after, rfl, hcreated, hafter⟩
  · rintro (⟨hcreated, hafter⟩ | ⟨before, x, after, rfl, hcreated, hafter⟩)
    · exact ⟨[], e, log, rfl, hcreated, hafter⟩
    · exact ⟨e :: before, x, after, rfl, hcreated, hafter⟩

/-! ### One exchange -/

/-- What an exchange may be: it creates a pet, deletes one, or does neither, and the store changes accordingly. -/
inductive Effect (w : Framework μ) (fresh : Uuid) (s : Store) (e : Exchange) : Store → Prop
  | create (p : Pet) (hid : p.id = fresh) (hcreated : createdPet? w e = some p) (hdeleted : deletedId? w e = none)
      (hcontent : ∃ r, e.answer = .ok r ∧ Content.ofResponse r = .json (JsonModel.toJson p)) :
      Effect w fresh s e (s.insert p)
  | delete (id : Uuid) (hcreated : createdPet? w e = none) (hdeleted : deletedId? w e = some id) :
      Effect w fresh s e (s.erase id)
  | keep (hcreated : createdPet? w e = none) (hdeleted : deletedId? w e = none) : Effect w fresh s e s

theorem isTidy_petPath (id : Uuid) : Http.isTidy (petPath id) = true := by
  have hdigit : ∀ d : Fin 16, 0x20 < (Text.Hex.lowerDigit d).toNat ∧ (Text.Hex.lowerDigit d).toNat < 0x7F := by decide
  have hlead : ∀ c ∈ "/pets/".toList, 0x20 < c.toNat ∧ c.toNat < 0x7F := Text.forall_mem_of_all (by decide +kernel)
  rw [Http.isTidy, List.all_eq_true]
  intro c hc
  rw [Bool.and_eq_true, decide_eq_true_eq, decide_eq_true_eq]
  rw [petPath, String.toList_append, List.mem_append] at hc
  rcases hc with hc | hc
  · exact hlead c hc
  · rcases Uuid.mem_toString hc with rfl | ⟨d, rfl⟩
    · decide
    · exact hdigit d

/-- The response to a pet that was created has the pet and tells its path. -/
theorem response_created (hw : w.Answers) (m : μ) (p : Pet) :
    ∃ r, (w.respond m .post (createdReply p)).map (Received.response w.reason) = .ok r ∧ r.status = 201 ∧
      r.statusText = "Created" ∧ Content.ofResponse r = .json (JsonModel.toJson p) ∧
      r.headers.find? "location" = some (petPath p.id) := by
  have hreason : w.reason 201 = "Created" := hw.reason (201, "Created") (by simp)
  have htidy : ∀ l ∈ some (petPath p.id), Http.isTidy l = true := by
    intro l hl
    rw [← Option.some.inj hl]
    exact isTidy_petPath p.id
  obtain ⟨r, hrespond, hstatus, htext, hcontent, hlocation⟩ :=
    response_json hw m .post 201 (some (petPath p.id)) (JsonRecord.written p) (by decide) (by decide) (by decide)
      htidy
  refine ⟨r, hrespond, hstatus, htext.trans hreason, ?_, hlocation _ rfl⟩
  rw [hcontent, Content.ofBytes, ofBytes?_pet, toJson_eq_written]

section
variable {address : String} (hw : w.Lawful address) (m : μ) (fresh : Uuid) (request : Http.Request) (a : Arrival)
  (s : Store)
include hw

private theorem effect_create {captured : List (Option String)} (hroute : route w a = .ok (.create, captured))
    (hmethod : a.method = .post) :
    Effect w fresh s ⟨request, .ok a, (w.respond m a.method (create w a fresh s).1).map (Received.response w.reason)⟩
      (create w a fresh s).2 := by
  have hdeleted : ∀ answer, deletedId? w ⟨request, .ok a, answer⟩ = none := by
    intro answer
    exact deletedId?_of_route (by simp [hroute])
  cases hdraft : w.draft a with
  | ok d =>
    rw [create, hdraft, hmethod]
    dsimp only
    obtain ⟨r, hrespond, hstatus, -, hcontent, -⟩ := response_created hw.answers m ⟨fresh, d.name, d.tag⟩
    rw [hrespond]
    refine .create _ rfl ?_ (hdeleted _) ⟨r, rfl, hcontent⟩
    rw [createdPet?_of_create hroute, if_pos hstatus, hcontent]
    exact ofJson?_toJson _
  | error rejection =>
    rw [create, hdraft]
    dsimp only
    obtain ⟨hlow, hhigh⟩ := hw.reads.draft a rejection hdraft
    obtain ⟨r, hrespond, hstatus, -⟩ := response_refused hw.answers m a.method rejection hlow hhigh
    have hne : r.status ≠ 201 := by
      rw [hstatus]
      rintro h
      rw [h] at hlow
      exact absurd hlow (by decide)
    rw [hrespond]
    refine .keep ?_ (hdeleted _)
    rw [createdPet?_of_create hroute, if_neg hne]

private theorem effect_delete {captured : List (Option String)} (hroute : route w a = .ok (.delete, captured)) :
    Effect w fresh s
      ⟨request, .ok a, (w.respond m a.method (delete w a captured s).1).map (Received.response w.reason)⟩
      (delete w a captured s).2 := by
  have hcreated : ∀ answer, createdPet? w ⟨request, .ok a, answer⟩ = none := by
    intro answer
    exact createdPet?_of_route (by simp [hroute])
  cases hid : segmentId? captured with
  | none =>
    have hbad := hw.reads.badPath a.path
    obtain ⟨r, hrespond, hstatus, -⟩ :=
      response_refused hw.answers m a.method (w.badPath a.path) (by rw [hbad]; decide) (by rw [hbad]; decide)
    have hdelete : delete w a captured s = (.refused (w.badPath a.path), s) := by
      rw [delete, hid]
      rfl
    rw [hdelete, hrespond]
    refine .keep (hcreated _) ?_
    rw [deletedId?_of_delete hroute, hid, ite_self]
  | some id =>
    cases hfind : s.find? id with
    | none =>
      have hdelete : delete w a captured s = (.bare 404, s) := by
        rw [delete, hid]
        simp only [hfind]
      obtain ⟨r, hrespond, hstatus, -⟩ := response_bare hw.answers m a.method 404 (.inr (by decide))
      rw [hdelete, hrespond]
      refine .keep (hcreated _) ?_
      rw [deletedId?_of_delete hroute, if_neg (by rw [hstatus]; decide)]
    | some p =>
      have hdelete : delete w a captured s = (.bare 204, s.erase id) := by
        rw [delete, hid]
        simp only [hfind]
      obtain ⟨r, hrespond, hstatus, -⟩ := response_bare hw.answers m a.method 204 (.inl (by decide))
      rw [hdelete, hrespond]
      refine .delete id (hcreated _) ?_
      rw [deletedId?_of_delete hroute, if_pos hstatus, hid]

/-- An exchange changes the store as it says. -/
theorem effect_exchange (o : Occasion μ) :
    Effect w o.fresh s (exchange w o request s).1 (exchange w o request s).2 := by
  cases harrive : w.arrive o.moment request with
  | error reason =>
    rw [exchange_of_failure harrive]
    exact .keep rfl rfl
  | ok a =>
    rw [exchange_of_arrival harrive]
    dsimp only
    cases hroute : route w a with
    | error reply =>
      rw [handle, hroute]
      exact .keep (createdPet?_of_route (by simp [hroute])) (deletedId?_of_route (by simp [hroute]))
    | ok found =>
      obtain ⟨endpoint, captured⟩ := found
      rw [handle_of_route hroute]
      -- Every endpoint but these two leaves the store as it is, whatever its answer says.
      cases endpoint with
      | create =>
        have hmethod := method_of_route_create hw.dispatches hroute
        exact effect_create hw o.moment o.fresh request a s hroute hmethod
      | delete => exact effect_delete hw o.moment o.fresh request a s hroute
      | _ => exact .keep (createdPet?_of_route (by simp [hroute])) (deletedId?_of_route (by simp [hroute]))

end

/-- A pet has the identifier of the occasion. -/
theorem id_of_created {address : String} (hw : w.Lawful address) {o : Occasion μ} {r : Http.Request} {s : Store}
    {p : Pet} (h : createdPet? w (exchange w o r s).1 = some p) : p.id = o.fresh := by
  have heffect := effect_exchange hw r s o
  generalize (exchange w o r s).2 = last at heffect
  cases heffect with
  | create q hid hcreated hdeleted hcontent =>
    obtain rfl : q = p := Option.some.inj (hcreated.symm.trans h)
    exact hid
  | delete id hcreated hdeleted => cases hcreated.symm.trans h
  | keep hcreated hdeleted => cases hcreated.symm.trans h

/-! ### Sessions -/

/-- The identifiers that are handed out are some of those for the requests, in their order. -/
theorem created_sublist {address : String} (hw : w.Lawful address) (occasions : Nat → Occasion μ)
    (calls : List (Config × Descriptor)) (service : Service) :
    (((session w occasions calls service).1.filterMap (createdPet? w)).map Pet.id).Sublist
      ((List.range' service.requests calls.length).map fun n => (occasions n).fresh) := by
  induction calls generalizing service with
  | nil => exact List.nil_sublist _
  | cons call rest ih =>
    obtain ⟨config, d⟩ := call
    have hrest := ih ((storeTransport w occasions).call config d service).2
    rw [service_of_call] at hrest
    rw [session_cons, List.filterMap_cons, List.length_cons, List.range'_succ, List.map_cons, service_of_call]
    cases hcreated : createdPet? w
        (exchange w (occasions service.requests) (d.request config) service.store).1 with
    | some p =>
      rw [List.map_cons, id_of_created hw hcreated]
      exact hrest.cons_cons _
    | none => exact hrest.cons _

theorem handsOutOnce_of_nodup {address : String} (hw : w.Lawful address) {occasions : Nat → Occasion μ}
    {calls : List (Config × Descriptor)} (h : ((List.range calls.length).map fun n => (occasions n).fresh).Nodup) :
    HandsOutOnce w (session w occasions calls Service.start).1 := by
  rw [List.range_eq_range'] at h
  exact h.sublist (created_sublist hw occasions calls Service.start)

/-- Exchanges one after the other, and the stores before and after them. -/
inductive Run (w : Framework μ) : Store → List Exchange → Store → Prop
  | nil (s : Store) : Run w s [] s
  | cons {fresh : Uuid} {s s' last : Store} {e : Exchange} {log : List Exchange} (heffect : Effect w fresh s e s')
      (hrest : Run w s' log last) : Run w s (e :: log) last

theorem run_session {address : String} (hw : w.Lawful address) (occasions : Nat → Occasion μ)
    (calls : List (Config × Descriptor)) (service : Service) :
    Run w service.store (session w occasions calls service).1 (session w occasions calls service).2.store := by
  induction calls generalizing service with
  | nil => exact .nil _
  | cons call rest ih =>
    obtain ⟨config, d⟩ := call
    have hrest := ih ((storeTransport w occasions).call config d service).2
    rw [session_cons]
    rw [service_of_call] at hrest ⊢
    exact .cons (effect_exchange hw (d.request config) service.store (occasions service.requests)) hrest

/-- The pets after some exchanges are those that were there before and not deleted, and the live ones. -/
theorem mem_pets_of_run {s last : Store} {log : List Exchange} (hrun : Run w s log last)
    (hfresh : ((s.pets ++ log.filterMap (createdPet? w)).map Pet.id).Nodup) (p : Pet) :
    p ∈ last.pets ↔ (p ∈ s.pets ∧ ∀ e ∈ log, deletedId? w e ≠ some p.id) ∨ Live w log p := by
  -- The pets that are still to be created count as fresh too, so the hypothesis passes on to the rest of the run.
  induction hrun with
  | nil s => simp [Live]
  | @cons fresh s s' last e log heffect hrest ih =>
    rw [live_cons, List.forall_mem_cons]
    cases heffect with
    | create q hid hcreated hdeleted hcontent =>
      simp only [List.filterMap_cons, hcreated] at hfresh
      -- A pet that is created now has an identifier that none of those before has.
      have hq : q.id ∉ s.pets.map Pet.id := by
        rw [List.map_append, List.nodup_append] at hfresh
        intro h
        exact hfresh.2.2 q.id h q.id List.mem_cons_self rfl
      have hpets := Store.insert_pets_of_fresh hq
      have hfresh' : (((s.insert q).pets ++ log.filterMap (createdPet? w)).map Pet.id).Nodup := by
        rwa [hpets, List.append_assoc, List.singleton_append]
      have hkept : deletedId? w e ≠ some p.id := by
        rw [hdeleted]
        nofun
      rw [ih hfresh', hpets, List.mem_append, List.mem_singleton, hcreated, Option.some.injEq]
      constructor
      · rintro (⟨hmem | rfl, hlog⟩ | hlive)
        · exact .inl ⟨hmem, hkept, hlog⟩
        · exact .inr (.inl ⟨rfl, hlog⟩)
        · exact .inr (.inr hlive)
      · rintro (⟨hmem, -, hlog⟩ | ⟨rfl, hlog⟩ | hlive)
        · exact .inl ⟨.inl hmem, hlog⟩
        · exact .inl ⟨.inr rfl, hlog⟩
        · exact .inr hlive
    | delete id hcreated hdeleted =>
      simp only [List.filterMap_cons, hcreated] at hfresh
      have hsublist : ((s.erase id).pets ++ log.filterMap (createdPet? w)).Sublist
          (s.pets ++ log.filterMap (createdPet? w)) :=
        List.filter_sublist.append (List.Sublist.refl _)
      rw [ih (hfresh.sublist (hsublist.map Pet.id)), Store.mem_erase, hcreated, hdeleted]
      constructor
      · rintro (⟨⟨hmem, hid⟩, hlog⟩ | hlive)
        · exact .inl ⟨hmem, fun h => hid (Option.some.inj h).symm, hlog⟩
        · exact .inr (.inr hlive)
      · rintro (⟨hmem, hid, hlog⟩ | ⟨hnone, -⟩ | hlive)
        · exact .inl ⟨⟨hmem, fun h => hid (congrArg some h.symm)⟩, hlog⟩
        · cases hnone
        · exact .inr hlive
    | keep hcreated hdeleted =>
      simp only [List.filterMap_cons, hcreated] at hfresh
      rw [ih hfresh, hcreated, hdeleted]
      simp

theorem created_content_of_run {s last : Store} {log : List Exchange} (hrun : Run w s log last) {e : Exchange}
    (he : e ∈ log) {p : Pet} (hp : createdPet? w e = some p) :
    ∃ r, e.answer = .ok r ∧ Content.ofResponse r = .json (JsonModel.toJson p) := by
  induction hrun with
  | nil s => cases he
  | cons heffect hrest ih =>
    rcases List.mem_cons.1 he with rfl | he
    · cases heffect with
      | create q hid hcreated hdeleted hcontent =>
        obtain rfl : q = p := Option.some.inj (hcreated.symm.trans hp)
        exact hcontent
      | delete id hcreated hdeleted => cases hcreated.symm.trans hp
      | keep hcreated hdeleted => cases hcreated.symm.trans hp
    · exact ih he

section
variable {address : String} (hw : w.Lawful address) (occasions : Nat → Occasion μ)
  (calls : List (Config × Descriptor))
  (hfresh : HandsOutOnce w (session w occasions calls Service.start).1)
include hw hfresh

theorem mem_pets_iff_live (p : Pet) :
    p ∈ (session w occasions calls Service.start).2.store.pets ↔
      Live w (session w occasions calls Service.start).1 p := by
  have hempty : Service.start.store.pets = [] := rfl
  have hmem := mem_pets_of_run (run_session hw occasions calls Service.start) hfresh p
  rw [hempty] at hmem
  simpa using hmem

theorem find?_of_live {p : Pet} (h : Live w (session w occasions calls Service.start).1 p) :
    (session w occasions calls Service.start).2.store.find? p.id = some p :=
  Store.find?_eq_some_iff.2 ⟨(mem_pets_iff_live hw occasions calls hfresh p).2 h, rfl⟩

theorem find?_of_not_live {id : Uuid}
    (h : ∀ p, Live w (session w occasions calls Service.start).1 p → p.id ≠ id) :
    (session w occasions calls Service.start).2.store.find? id = none :=
  Store.find?_eq_none_iff.2 fun p hp => h p ((mem_pets_iff_live hw occasions calls hfresh p).1 hp)

end

/-- After any session in which no identifier was handed out twice, calls report the live pets: a pet is fetched as it
was created and can be deleted exactly while it is live, and the pets that are listed are the live ones, each once.
It takes headers that can be sent and sizes within the limits. -/
theorem live_pets_observed {address : String} (hw : w.Lawful address) (occasions : Nat → Occasion μ)
    (calls : List (Config × Descriptor)) :
    let t := storeTransport w occasions
    let config := Config.ofAddress address
    let log := (session w occasions calls Service.start).1
    let last := (session w occasions calls Service.start).2
    HandsOutOnce w log →
    (∀ e ∈ log, ∀ p, createdPet? w e = some p →
      ∃ r, e.answer = .ok r ∧ Content.ofResponse r = .json (JsonModel.toJson p)) ∧
    ∀ d : Descriptor, d.IsPlain → Http.isSendable (d.requestHeaders config) = true → w.Fits (d.request config) →
      let url := d.url config
      let outcome := (t.call config d last).1.outcome
      (∀ id, d.method = .get → d.path = petPath id →
        (∀ p, Live w log p → p.id = id → outcome = foundOutcome url (JsonModel.toJson p)) ∧
        ((∀ p, Live w log p → p.id ≠ id) → outcome = notFoundOutcome url)) ∧
      (∀ id, d.method = .delete → d.path = petPath id →
        (∀ p, Live w log p → p.id = id → outcome = deletedOutcome url) ∧
        ((∀ p, Live w log p → p.id ≠ id) → outcome = notFoundOutcome url)) ∧
      (d.method = .get → d.path = "/pets" → Query.flatten d.query = [] →
        ∃ listed : List Pet, listed.Nodup ∧ (∀ p, p ∈ listed ↔ Live w log p) ∧
          outcome = foundOutcome url (.arr (listed.map JsonModel.toJson))) := by
  intro t config log last hfresh
  refine ⟨fun e he p hp => created_content_of_run (run_session hw occasions calls Service.start) he hp, ?_⟩
  intro d hd hsendable hfits url outcome
  have hfound : ∀ {p}, Live w log p → last.store.find? p.id = some p := find?_of_live hw occasions calls hfresh
  have hnone : ∀ {id}, (∀ p, Live w log p → p.id ≠ id) → last.store.find? id = none :=
    find?_of_not_live hw occasions calls hfresh
  refine ⟨?_, ?_, ?_⟩
  · intro id hmethod hpath
    have houtcome : outcome = fetchOutcome url (last.store.find? id) :=
      outcome_fetch hw occasions last hsendable hfits hd hpath hmethod
    constructor
    · rintro p hp rfl
      rw [houtcome, hfound hp]
      rfl
    · intro h
      rw [houtcome, hnone h]
      rfl
  · intro id hmethod hpath
    have houtcome : outcome = deleteOutcome url (last.store.find? id) :=
      outcome_delete hw occasions last hsendable hfits hd hpath hmethod
    constructor
    · rintro p hp rfl
      rw [houtcome, hfound hp]
      rfl
    · intro h
      rw [houtcome, hnone h]
      rfl
  · intro hmethod hpath hquery
    refine ⟨listing none none last.store.pets, nodup_listing _, fun p => ?_, ?_⟩
    · exact mem_listing.trans (mem_pets_iff_live hw occasions calls hfresh p)
    · exact outcome_list hw occasions last hsendable hfits hd hmethod hpath hquery

/-- Two pets created and the first of them deleted. -/
def shortSession : List (Config × Descriptor) :=
  let config := Config.ofAddress Loopback.address
  let create (name : String) := (Descriptor.ofPath .post "/pets").apply (.jsonBody (.obj [("name", .str name)]))
  [(config, create "Rex"), (config, create "Tom"), (config, .ofPath .delete (petPath (Uuid.ofNat 0)))]

theorem live_pets_observed_short :
    let t := storeTransport loopback (Loopback.occasions 0)
    let config := Config.ofAddress Loopback.address
    let log := (session loopback (Loopback.occasions 0) shortSession Service.start).1
    let last := (session loopback (Loopback.occasions 0) shortSession Service.start).2
    let tom : Pet := ⟨Uuid.ofNat 1, "Tom", none⟩
    let d := Descriptor.ofPath .get (petPath tom.id)
    loopback.Lawful Loopback.address ∧ HandsOutOnce loopback log ∧ Live loopback log tom ∧
      Http.isSendable (d.requestHeaders config) = true ∧ loopback.Fits (d.request config) ∧
      (t.call config d last).1.outcome = foundOutcome (d.url config) (JsonModel.toJson tom) := by
  intro t config log last tom d
  have hfresh : HandsOutOnce loopback log := handsOutOnce_of_nodup loopback_lawful (by decide +kernel)
  have hlive : Live loopback log tom :=
    (mem_pets_iff_live loopback_lawful (Loopback.occasions 0) shortSession hfresh tom).1 (by decide +kernel)
  have hsendable : Http.isSendable (d.requestHeaders config) = true := isSendable_requestHeaders _ rfl nofun
  have hfits : loopback.Fits (d.request config) := by
    refine loopback_lawful.carries.small _ _ none (url_ofAddress (cleanPath_petPath _) []) rfl ?_ ?_ ?_ <;>
      decide +kernel
  have hobserved := (live_pets_observed loopback_lawful (Loopback.occasions 0) shortSession hfresh).2 d ⟨rfl, rfl⟩
    hsendable hfits
  exact ⟨loopback_lawful, hfresh, hlive, hsendable, hfits, (hobserved.1 tom.id rfl rfl).1 tom hlive rfl⟩

/-- A query of some length. -/
private theorem length_queryOf (s : String) :
    ∃ q, queryOf [("q", .str s)] = some q ∧ s.length ≤ q.length := by
  have hflatten : Query.flatten [("q", .str s)] = [("q", s)] := rfl
  refine ⟨_, if_neg (by rw [hflatten]; simp), ?_⟩
  have hlength := Text.length_le_flatMap (Text.Percent.encodeChar_ne_nil Text.Percent.isComponentChar) s.toList
  rw [String.length_toList] at hlength
  simp only [hflatten, String.length_ofList, Query.joinPairs, Query.encodePair, List.length_append, List.length_cons,
    Text.Percent.encodeComponent, Text.Percent.encode]
  omega

/-- A header whose name is none, and a query that makes the URL too long: neither request is sent. -/
theorem live_pets_unseen :
    let t := storeTransport loopback (Loopback.occasions 0)
    let config := Config.ofAddress Loopback.address
    let log := (session loopback (Loopback.occasions 0) [] Service.start).1
    let last := (session loopback (Loopback.occasions 0) [] Service.start).2
    let spaced := (Descriptor.ofPath .get "/pets").apply (.header "a b" "1")
    let long := (Descriptor.ofPath .get (petPath (Uuid.ofNat 0))).apply
      (.query "q" (.str (String.ofList (List.replicate 70000 'a'))))
    HandsOutOnce loopback log ∧ (∀ p, ¬Live loopback log p) ∧ spaced.IsPlain ∧ long.IsPlain ∧
      (t.call config spaced last).1.outcome = .error (.transport "builder error") ∧
      (t.call config spaced last).1.outcome ≠ foundOutcome (spaced.url config) (.arr []) ∧
      (t.call config long last).1.outcome = .error (.transport "builder error") ∧
      (t.call config long last).1.outcome ≠ notFoundOutcome (long.url config) := by
  intro t config log last spaced long
  have hlive : ∀ p, ¬Live loopback log p := by
    rintro p ⟨before, e, after, hlog, -⟩
    have hempty : log = [] := rfl
    rw [hempty] at hlog
    exact absurd hlog (by simp)
  have hspaced : (t.call config spaced last).1.outcome = .error (.transport "builder error") :=
    outcome_of_failure (Loopback.arrive_of_not_sendable _ (by decide +kernel))
  have hlong : (t.call config long last).1.outcome = .error (.transport "builder error") := by
    obtain ⟨s, hs⟩ : ∃ s, s = String.ofList (List.replicate 70000 'a') := ⟨_, rfl⟩
    obtain ⟨q, hq, hlength⟩ := length_queryOf s
    have hsize : s.length = 70000 := by rw [hs, String.length_ofList, List.length_replicate]
    obtain ⟨target, htarget⟩ : ∃ target : Loopback.Target,
        target = ⟨["pets", (Uuid.ofNat 0).toString], queryOf [("q", .str s)]⟩ := ⟨_, rfl⟩
    have hsegments : ["pets", (Uuid.ofNat 0).toString].all (fun s => s.toList.all isPlainChar) = true := by
      decide +kernel
    have hplain : target.isPlain = true := by
      rw [htarget, Loopback.Target.isPlain, Bool.and_eq_true, Option.all_eq_true]
      exact ⟨hsegments, isPairsChar_of_mem_queryOf [("q", .str s)]⟩
    have hurl : (long.request config).url = target.url := by
      rw [htarget, hs]
      exact url_ofAddress (cleanPath_petPath _) _
    refine outcome_of_failure (Loopback.arrive_of_long _ hplain hurl ?_)
    rw [hurl, Loopback.length_url, htarget, hq]
    simp only [Option.map_some, Option.getD_some, Loopback.maxUrl]
    omega
  refine ⟨List.nodup_nil, hlive, ⟨rfl, rfl⟩, ⟨rfl, rfl⟩, hspaced, ?_, hlong, ?_⟩
  · rw [hspaced]
    intro h
    cases h
  · rw [hlong]
    intro h
    cases h

end ApiClient.PetStore
