import ApiClient.Proofs.PetStore.Creation

/-!
# Clients that share the store

A request that is no listing is answered by what the store holds under the identifier in its path (`reply_congr`), and
what it leaves under any identifier is decided by what was there (`find?_handle`).  So clients that fetch and delete
no pets of each other, whatever else they do, get the answers that each of them gets from a store of its own, and the
pets of the shared store are those of these stores together (`clients_do_not_interfere`).

The calls that a client makes alone are made at other moments.  Where a call asks for the date, or has its form data
echoed, the moment shows (`clients_tell_moments`).
-/

namespace ApiClient

/-- A payload that is no form data is sent as it is. -/
theorem Descriptor.bytes?_request_ne_none {d : Descriptor} (hform : d.form = none) (config : Config) :
    (d.request config).bytes? ≠ none := by
  have hpayload : (d.request config).payload = (d.body.filter Body.isPresent).map Body.payload := by
    show d.payload = _
    rw [Descriptor.payload, hform]
  rw [Http.Request.bytes?, hpayload]
  cases d.body.filter Body.isPresent with
  | none => exact Option.some_ne_none _
  | some b => cases b <;> exact Option.some_ne_none _

namespace PetStore

open Text (SameName)
open Framework (Agree SameButDate)

variable {μ : Type} {w : Framework μ}

/-! ### What a request is about -/

/-- The identifier in the path of a request for one pet. -/
def namedId? (w : Framework μ) (a : Arrival) : Option Uuid :=
  match route w a with
  | .ok (.fetch, captured) => segmentId? captured
  | .ok (.delete, captured) => segmentId? captured
  | _ => none

/-- The identifier of which a request deletes the pet. -/
def erasedId? (w : Framework μ) (a : Arrival) : Option Uuid :=
  match route w a with
  | .ok (.delete, captured) => segmentId? captured
  | _ => none

/-- The pet that a request creates, with the identifier `fresh`. -/
def creation? (w : Framework μ) (fresh : Uuid) (a : Arrival) : Option Pet :=
  match route w a with
  | .ok (.create, _) => (w.draft a).toOption.map fun d => ⟨fresh, d.name, d.tag⟩
  | _ => none

theorem namedId?_of_erasedId? {a : Arrival} {id : Uuid} (h : erasedId? w a = some id) : namedId? w a = some id := by
  unfold erasedId? at h
  split at h
  · rename_i captured hroute
    rw [namedId?, hroute]
    exact h
  · cases h

private theorem find?_create (fresh : Uuid) (a : Arrival) (s : Store) (id : Uuid) :
    (create w a fresh s).2.find? id =
      match (w.draft a).toOption.map fun d => (⟨fresh, d.name, d.tag⟩ : Pet) with
      | some p => if id = p.id then some p else s.find? id
      | none => s.find? id := by
  rw [create]
  cases w.draft a with
  | ok d => exact Store.find?_insert s _ id
  | error rejection => rfl

private theorem find?_delete (a : Arrival) (captured : List (Option String)) (s : Store) (id : Uuid) :
    (delete w a captured s).2.find? id = if segmentId? captured = some id then none else s.find? id := by
  rw [delete_store]
  cases segmentId? captured with
  | none => rfl
  | some other =>
    rw [Option.elim_some, Store.find?_erase]
    simp only [Option.some.injEq, eq_comm]

/-- What a request leaves under an identifier: the pet that it creates, nothing if it deletes what is there, or else
what was there before. -/
theorem find?_handle (fresh : Uuid) (a : Arrival) (s : Store) (id : Uuid) :
    (handle w a fresh s).2.find? id =
      match creation? w fresh a with
      | some p => if id = p.id then some p else s.find? id
      | none => if erasedId? w a = some id then none else s.find? id := by
  cases hroute : route w a with
  | error reply =>
    rw [handle, creation?, erasedId?, hroute]
    rfl
  | ok target =>
    obtain ⟨endpoint, captured⟩ := target
    rw [handle_of_route hroute, creation?, erasedId?, hroute]
    cases endpoint with
    | create =>
      simp only [serve, find?_create]
      rfl
    | delete => exact find?_delete a captured s id
    | _ => rfl

/-! ### Requests at different moments -/

section
variable {r : Http.Request} {a b : Arrival} (h : w.SameArrival r a b)
include h

theorem route_congr : route w a = route w b := by rw [route, route, matched?, matched?, h.path, h.method]

theorem erasedId?_congr : erasedId? w a = erasedId? w b := by rw [erasedId?, erasedId?, route_congr h]

theorem creation?_congr (fresh : Uuid) : creation? w fresh a = creation? w fresh b := by
  rw [creation?, creation?, route_congr h, h.draft]

/-- The reply to a request that is no listing depends on what is found under the identifier in its path only.  Form
data is written differently at different moments, and that is echoed. -/
theorem reply_congr (hlist : ∀ captured, route w a ≠ .ok (.list, captured))
    (hecho : ∀ captured, route w a = .ok (.echo, captured) → a = b) {s t : Store}
    (hfind : ∀ id, namedId? w a = some id → s.find? id = t.find? id) (fresh : Uuid) :
    (handle w a fresh s).1 = (handle w b fresh t).1 := by
  have hbad : badSegment w a = badSegment w b := by rw [badSegment, badSegment, h.path]
  rw [handle, handle, ← route_congr h]
  cases hroute : route w a with
  | error reply => rfl
  | ok target =>
    obtain ⟨endpoint, captured⟩ := target
    have hfound : ∀ id, (endpoint = .fetch ∨ endpoint = .delete) → segmentId? captured = some id →
        s.find? id = t.find? id := by
      intro id hendpoint hid
      refine hfind id ?_
      rw [namedId?, hroute]
      rcases hendpoint with rfl | rfl <;> exact hid
    cases endpoint with
    | list => exact absurd hroute (hlist captured)
    | create =>
      simp only [serve, create, h.draft]
      cases w.draft b <;> rfl
    | fetch =>
      simp only [serve, fetch, hbad]
      cases hid : segmentId? captured with
      | none => rfl
      | some id => simp only [hfound id (.inl rfl) hid]
    | delete =>
      simp only [serve, delete, hbad]
      cases hid : segmentId? captured with
      | none => rfl
      | some id =>
        simp only [hfound id (.inr rfl) hid]
        cases t.find? id <;> rfl
    | echo =>
      rw [hecho captured hroute]
      rfl
    | upload => simp only [serve, upload, h.parts]
    | status => simp only [serve, statusReply, hbad]
    | _ => rfl

end

/-! ### Answers at different moments -/

section
variable {x y : Received} (h : SameButDate x y)
include h

private theorem find?_of_sameButDate {name : String} (hname : ¬SameName name "date") (reason : UInt16 → String) :
    (x.response reason).headers.find? name = (y.response reason).headers.find? name := by
  show (visible x.headers).find? name = (visible y.headers).find? name
  rw [← find?_visible_filter hname, h.headers, find?_visible_filter hname]

/-- The date is seen by calls that ask for it only. -/
theorem trace_of_sameButDate (reason : UInt16 → String) (config : Config) {d : Descriptor}
    (hheader : ∀ name ∈ d.responseHeader, ¬SameName name "date") :
    d.trace config (.ok (x.response reason)) = d.trace config (.ok (y.response reason)) := by
  have hstatus : (x.response reason).status = (y.response reason).status := h.status
  have hbody : (x.response reason).body = (y.response reason).body := h.body
  have htext : (x.response reason).statusText = (y.response reason).statusText := congrArg reason h.status
  have htype := find?_of_sameButDate h (show ¬SameName "content-type" "date" by decide +kernel) reason
  have hof : Content.ofResponse (x.response reason) = Content.ofResponse (y.response reason) := by
    rw [Content.ofResponse, Content.ofResponse, htype, hbody]
  have hunreadable : Content.isUnreadable (x.response reason) = Content.isUnreadable (y.response reason) := by
    rw [Content.isUnreadable, Content.isUnreadable, htype, hbody]
  have hcontent : d.content (x.response reason) = d.content (y.response reason) := by
    rw [Descriptor.content, Descriptor.content, hof]
    cases hd : d.responseHeader with
    | none => rfl
    | some name =>
      have hfind := find?_of_sameButDate h (hheader name hd) reason
      simp only [Option.bind_eq_bind, Option.bind_some, Content.headerText, hfind]
  have hanswer : ∀ url, d.answer url (x.response reason) = d.answer url (y.response reason) := by
    intro url
    rw [Descriptor.answer, Descriptor.answer, Http.Response.isOk, Http.Response.isOk, hstatus, htext, hcontent]
  simp only [Descriptor.trace, Descriptor.outcome, Descriptor.interpret, answerEvents, hanswer, hstatus, hunreadable,
    hbody]

end

/-! ### Visits -/

/-- A call of one of several clients, and the occasion on which it is made. -/
structure Visit (κ μ : Type) where
  client : κ
  config : Config
  call : Descriptor
  occasion : Occasion μ

namespace Visit

variable {κ : Type}

section
variable (w : Framework μ) (v : Visit κ μ)

/-- The request of a visit. -/
def request : Http.Request := v.call.request v.config

/-- The request as it reaches the store. -/
def arrival? : Option Arrival := (w.arrive v.occasion.moment v.request).toOption

/-- The endpoint that the request is for. -/
def endpoint? : Option Endpoint := v.arrival? w >>= fun a => (route w a).toOption.map Prod.fst

/-- The identifier in the path of the request. -/
def namedId? : Option Uuid := v.arrival? w >>= PetStore.namedId? w

/-- The identifier of which the request deletes the pet. -/
def erasedId? : Option Uuid := v.arrival? w >>= PetStore.erasedId? w

/-- The pet that the request creates. -/
def creation? : Option Pet := v.arrival? w >>= PetStore.creation? w v.occasion.fresh

/-- What happens during a visit, and the store afterwards. -/
def attend (s : Store) : Trace × Store :=
  let (trace, service) := (storeTransport w fun _ => v.occasion).call v.config v.call ⟨s, 0⟩
  (trace, service.store)

/-- Visits one after the other: what happened during each, and the store at the end. -/
def run : List (Visit κ μ) → Store → List (Visit κ μ × Trace) × Store
  | [], s => ([], s)
  | v :: rest, s =>
    let (trace, s) := v.attend w s
    let (traces, s) := run rest s
    ((v, trace) :: traces, s)

/-- The identifiers of the pets that are created during visits, with the clients that create them. -/
def creators (visits : List (Visit κ μ)) : List (Uuid × κ) :=
  visits.filterMap fun v => (v.creation? w).map fun p => (p.id, v.client)

/-- A visit asks for no listing, and the identifier in its path is not that of a pet of another client. -/
structure KeepsToOwn (visits : List (Visit κ μ)) (v : Visit κ μ) : Prop where
  no_listing : v.endpoint? w ≠ some .list
  own : ∀ x ∈ creators w visits, v.namedId? w = some x.1 → x.2 = v.client

/-- The moment of a visit does not show: neither is the date asked for, nor is form data echoed. -/
structure IsSteady (v : Visit κ μ) : Prop where
  no_date : ∀ name ∈ v.call.responseHeader, ¬SameName name "date"
  no_form : v.call.form = none ∨ v.endpoint? w ≠ some .echo

theorem attend_eq (s : Store) :
    v.attend w s =
      (v.call.trace v.config (exchange w v.occasion v.request s).1.answer,
        (exchange w v.occasion v.request s).2) := by
  rw [attend, Transport.call_eq, send_eq]
  rfl

theorem run_cons (rest : List (Visit κ μ)) (s : Store) :
    run w (v :: rest) s =
      ((v, (v.attend w s).1) :: (run w rest (v.attend w s).2).1, (run w rest (v.attend w s).2).2) := by
  cases h : v.attend w s with
  | mk trace next => simp only [run, h]

theorem find?_attend (s : Store) (id : Uuid) :
    (v.attend w s).2.find? id =
      match v.creation? w with
      | some p => if id = p.id then some p else s.find? id
      | none => if v.erasedId? w = some id then none else s.find? id := by
  rw [attend_eq, creation?, erasedId?, arrival?]
  cases harrive : w.arrive v.occasion.moment v.request with
  | error reason =>
    rw [exchange_of_failure harrive]
    simp [Except.toOption]
  | ok a =>
    rw [exchange_of_arrival harrive]
    exact find?_handle v.occasion.fresh a s id

end

theorem mem_creators_of_creation {visits : List (Visit κ μ)} {v : Visit κ μ} (hv : v ∈ visits) {p : Pet}
    (hp : v.creation? w = some p) : (p.id, v.client) ∈ creators w visits :=
  List.mem_filterMap.2 ⟨v, hv, by rw [hp]; rfl⟩

theorem namedId?_of_erased {v : Visit κ μ} {id : Uuid} (h : v.erasedId? w = some id) : v.namedId? w = some id := by
  rw [erasedId?, Option.bind_eq_bind, Option.bind_eq_some_iff] at h
  obtain ⟨a, ha, hid⟩ := h
  rw [namedId?, ha]
  exact namedId?_of_erasedId? hid

/-! ### One call at two moments -/

/-- Two visits make the same call and have the same identifier for a new pet. -/
structure SameCall (v v' : Visit κ μ) : Prop where
  config : v.config = v'.config
  call : v.call = v'.call
  fresh : v.occasion.fresh = v'.occasion.fresh

section
variable (hw : w.Steady) {v v' : Visit κ μ} (hsame : SameCall v v')
include hw hsame

/-- Both requests are not sent, or both arrive as the same request. -/
private theorem arrive_cases :
    (∃ reason, w.arrive v.occasion.moment v.request = .error reason ∧
      w.arrive v'.occasion.moment v'.request = .error reason) ∨
    ∃ a b, w.arrive v.occasion.moment v.request = .ok a ∧ w.arrive v'.occasion.moment v'.request = .ok b ∧
      w.SameArrival v.request a b := by
  have hrequest : v'.request = v.request := by rw [request, request, hsame.config, hsame.call]
  have hagree := hw.arrive v.occasion.moment v'.occasion.moment v.request
  rw [hrequest]
  generalize w.arrive v.occasion.moment v.request = first at hagree ⊢
  generalize w.arrive v'.occasion.moment v.request = second at hagree ⊢
  cases hagree with
  | error reason => exact .inl ⟨reason, rfl, rfl⟩
  | ok h => exact .inr ⟨_, _, rfl, rfl, h⟩

theorem creation?_of_sameCall : v'.creation? w = v.creation? w := by
  rw [creation?, creation?, arrival?, arrival?, ← hsame.fresh]
  rcases arrive_cases hw hsame with ⟨reason, ha, hb⟩ | ⟨a, b, ha, hb, h⟩
  · rw [ha, hb]
  · rw [ha, hb]
    exact (creation?_congr h _).symm

theorem erasedId?_of_sameCall : v'.erasedId? w = v.erasedId? w := by
  rw [erasedId?, erasedId?, arrival?, arrival?]
  rcases arrive_cases hw hsame with ⟨reason, ha, hb⟩ | ⟨a, b, ha, hb, h⟩
  · rw [ha, hb]
  · rw [ha, hb]
    exact (erasedId?_congr h).symm

/-- What happens during two visits with the same call is the same if the same is found under the identifier in the
path, as far as the moment does not show. -/
theorem trace_of_sameCall (hmoment : v.occasion.moment = v'.occasion.moment ∨ v.IsSteady w)
    (hlist : v.endpoint? w ≠ some .list) {s t : Store}
    (hfind : ∀ id, v.namedId? w = some id → s.find? id = t.find? id) : (v.attend w s).1 = (v'.attend w t).1 := by
  have hrequest : v'.request = v.request := by rw [request, request, hsame.config, hsame.call]
  rw [attend_eq, attend_eq, ← hsame.config, ← hsame.call]
  rcases arrive_cases hw hsame with ⟨reason, ha, hb⟩ | ⟨a, b, ha, hb, h⟩
  · rw [exchange_of_failure ha, exchange_of_failure hb]
  have harrival : v.arrival? w = some a := by
    rw [arrival?, ha]
    rfl
  have hendpoint : ∀ {endpoint captured}, route w a = .ok (endpoint, captured) → v.endpoint? w = some endpoint := by
    intro endpoint captured hroute
    rw [endpoint?, harrival, Option.bind_eq_bind, Option.bind_some, hroute]
    rfl
  have hecho : ∀ captured, route w a = .ok (.echo, captured) → a = b := by
    intro captured hroute
    rcases hmoment with hmoment | hsteady
    · rw [hrequest, ← hmoment, ha] at hb
      exact Except.ok.inj hb
    · have hform := hsteady.no_form.resolve_right fun hne => hne (hendpoint hroute)
      exact h.whole (Descriptor.bytes?_request_ne_none hform v.config)
  have hreply : (handle w a v.occasion.fresh s).1 = (handle w b v'.occasion.fresh t).1 := by
    rw [← hsame.fresh]
    refine reply_congr h (fun captured hroute => hlist (hendpoint hroute)) hecho (fun id hid => hfind id ?_) _
    rw [namedId?, harrival]
    exact hid
  rw [exchange_of_arrival ha, exchange_of_arrival hb, hreply, h.method]
  dsimp only
  rcases hmoment with hmoment | hsteady
  · rw [hmoment]
  · have hagree := hw.respond v.occasion.moment v'.occasion.moment b.method (handle w b v'.occasion.fresh t).1
    generalize w.respond v.occasion.moment b.method (handle w b v'.occasion.fresh t).1 = first at hagree ⊢
    generalize w.respond v'.occasion.moment b.method (handle w b v'.occasion.fresh t).1 = second at hagree ⊢
    cases hagree with
    | error reason => rfl
    | ok hxy => exact trace_of_sameButDate hxy w.reason v.config hsteady.no_date

end

/-- What happens during two visits is the same, as far as the moment does not show. -/
def Alike (w : Framework μ) (x y : Visit κ μ × Trace) : Prop :=
  x.1.occasion.moment = y.1.occasion.moment ∨ x.1.IsSteady w → x.2 = y.2

end Visit

open Visit (SameCall Alike KeepsToOwn)

/-! ### The part of a store that is a client's own -/

/-- `part` holds what `s` holds under the identifiers in `own`, and nothing else. -/
structure IsPart (own : Uuid → Prop) (s part : Store) : Prop where
  inside : ∀ id, own id → part.find? id = s.find? id
  outside : ∀ id, ¬own id → part.find? id = none

theorem IsPart.mem_iff {own : Uuid → Prop} {s part : Store} (h : IsPart own s part) {p : Pet} :
    p ∈ part.pets ↔ p ∈ s.pets ∧ own p.id := by
  have hpart : p ∈ part.pets ↔ part.find? p.id = some p := by simp [Store.find?_eq_some_iff]
  have hs : p ∈ s.pets ↔ s.find? p.id = some p := by simp [Store.find?_eq_some_iff]
  rw [hpart, hs]
  by_cases hown : own p.id
  · rw [h.inside p.id hown]
    exact (and_iff_left hown).symm
  · simp [h.outside p.id hown, hown]

/-- A store holds nothing but pets with identifiers in `known`. -/
def Store.Within (known : Uuid → Prop) (s : Store) : Prop := ∀ id, ¬known id → s.find? id = none

theorem Store.Within.known_of_mem {known : Uuid → Prop} {s : Store} (h : s.Within known) {p : Pet} (hp : p ∈ s.pets) :
    known p.id := by
  by_contra hunknown
  have hnone := h p.id hunknown
  rw [Store.find?_eq_some_iff.2 ⟨hp, rfl⟩] at hnone
  cases hnone

section
variable {κ : Type} {v v' : Visit κ μ} {own known : Uuid → Prop} {s part : Store}

private theorem within_attend (hcreates : ∀ p, v.creation? w = some p → known p.id) (hwithin : s.Within known) :
    (v.attend w s).2.Within known := by
  intro id hid
  rw [Visit.find?_attend]
  cases hcreation : v.creation? w with
  | none => simp only [hwithin id hid, ite_self]
  | some p =>
    have hne : id ≠ p.id := fun heq => hid (heq ▸ hcreates p hcreation)
    simp only [if_neg hne, hwithin id hid]

/-- What the client of the part does is seen in the part as in the whole. -/
private theorem attend_own (hw : w.Steady) (hsame : SameCall v v') (hlist : v.endpoint? w ≠ some .list)
    (hnamed : ∀ id, v.namedId? w = some id → own id ∨ ¬known id) (hcreates : ∀ p, v.creation? w = some p → own p.id)
    (hpart : IsPart own s part) (hwithin : s.Within known) :
    Alike w (v, (v.attend w s).1) (v', (v'.attend w part).1) ∧
      IsPart own (v.attend w s).2 (v'.attend w part).2 := by
  constructor
  · intro hmoment
    refine Visit.trace_of_sameCall hw hsame hmoment hlist fun id hid => ?_
    by_cases hown : own id
    · exact (hpart.inside id hown).symm
    · have hunknown := (hnamed id hid).resolve_left hown
      rw [hpart.outside id hown, hwithin id hunknown]
  constructor
  · intro id hown
    rw [Visit.find?_attend, Visit.find?_attend, Visit.creation?_of_sameCall hw hsame,
      Visit.erasedId?_of_sameCall hw hsame, hpart.inside id hown]
  · intro id hown
    rw [Visit.find?_attend, Visit.creation?_of_sameCall hw hsame]
    cases hcreation : v.creation? w with
    | none => simp only [hpart.outside id hown, ite_self]
    | some p =>
      have hne : id ≠ p.id := fun heq => hown (heq ▸ hcreates p hcreation)
      simp only [if_neg hne, hpart.outside id hown]

/-- What another client does leaves the part as it is. -/
private theorem attend_other (hnamed : ∀ id, v.namedId? w = some id → ¬own id)
    (hcreates : ∀ p, v.creation? w = some p → ¬own p.id) (hpart : IsPart own s part) :
    IsPart own (v.attend w s).2 part := by
  refine ⟨fun id hown => ?_, hpart.outside⟩
  rw [Visit.find?_attend, hpart.inside id hown]
  cases hcreation : v.creation? w with
  | none =>
    have hkept : ¬v.erasedId? w = some id := fun h => hnamed id (Visit.namedId?_of_erased h) hown
    simp only [if_neg hkept]
  | some p =>
    have hne : id ≠ p.id := fun heq => hcreates p hcreation (heq ▸ hown)
    simp only [if_neg hne]

end

/-! ### Clients -/

section
variable {κ : Type} {visits : List (Visit κ μ)}

/-- Only pets that are created are kept. -/
private theorem within_run {known : Uuid → Prop} (hknown : ∀ v ∈ visits, ∀ p, v.creation? w = some p → known p.id)
    {s : Store} (hwithin : s.Within known) : (Visit.run w visits s).2.Within known := by
  induction visits generalizing s with
  | nil => exact hwithin
  | cons v rest ih =>
    rw [List.forall_mem_cons] at hknown
    rw [Visit.run_cons]
    exact ih hknown.2 (within_attend hknown.1 hwithin)

/-- No pet is created by two clients. -/
private theorem creator_unique (hdistinct : ((Visit.creators w visits).map Prod.fst).Nodup) {id : Uuid} {c d : κ}
    (hc : (id, c) ∈ Visit.creators w visits) (hd : (id, d) ∈ Visit.creators w visits) : c = d :=
  (Prod.mk.inj (List.inj_on_of_nodup_map hdistinct hc hd rfl)).2

variable [DecidableEq κ] {c : κ}

/-- A client cannot tell the shared store from a store of its own, which stays the client's part of the shared one. -/
theorem run_of_client (hw : w.Steady) (own known : Uuid → Prop)
    (hown : ∀ v ∈ visits, v.client = c → v.endpoint? w ≠ some .list ∧
      (∀ id, v.namedId? w = some id → own id ∨ ¬known id) ∧ ∀ p, v.creation? w = some p → own p.id)
    (hother : ∀ v ∈ visits, v.client ≠ c →
      (∀ id, v.namedId? w = some id → ¬own id) ∧ ∀ p, v.creation? w = some p → ¬own p.id)
    (hknown : ∀ v ∈ visits, ∀ p, v.creation? w = some p → known p.id) {alone : List (Visit κ μ)}
    (halone : List.Forall₂ SameCall (visits.filter fun v => v.client = c) alone) {s part : Store}
    (hpart : IsPart own s part) (hwithin : s.Within known) :
    List.Forall₂ (Alike w) ((Visit.run w visits s).1.filter fun x => x.1.client = c) (Visit.run w alone part).1 ∧
      IsPart own (Visit.run w visits s).2 (Visit.run w alone part).2 := by
  -- The two stores go through the visits side by side; only visits of the client move the one that it has alone.
  induction visits generalizing s part alone with
  | nil =>
    cases halone
    exact ⟨.nil, hpart⟩
  | cons v rest ih =>
    rw [List.forall_mem_cons] at hown hother hknown
    have hwithin' := within_attend hknown.1 hwithin
    rw [Visit.run_cons]
    by_cases hclient : v.client = c
    · obtain ⟨hlist, hnamed, hcreates⟩ := hown.1 hclient
      have hfilter : (v :: rest).filter (fun v => v.client = c) = v :: rest.filter fun v => v.client = c := by
        simp [hclient]
      rw [hfilter] at halone
      cases halone with
      | @cons _ v' _ later hsame hlater =>
        obtain ⟨halike, hpart'⟩ := attend_own hw hsame hlist hnamed hcreates hpart hwithin
        obtain ⟨htraces, hlast⟩ := ih hown.2 hother.2 hknown.2 hlater hpart' hwithin'
        rw [Visit.run_cons]
        refine ⟨?_, hlast⟩
        simp only [List.filter_cons, hclient, decide_true, if_true]
        exact .cons halike htraces
    · obtain ⟨hnamed, hcreates⟩ := hother.1 hclient
      have hpart' := attend_other hnamed hcreates hpart
      have hfilter : (v :: rest).filter (fun v => v.client = c) = rest.filter fun v => v.client = c := by
        simp [hclient]
      rw [hfilter] at halone
      obtain ⟨htraces, hlast⟩ := ih hown.2 hother.2 hknown.2 halone hpart' hwithin'
      refine ⟨?_, hlast⟩
      simp only [List.filter_cons, hclient, decide_false, Bool.false_eq_true, if_false]
      exact htraces

private theorem run_of_creators (hw : w.Steady) (hdistinct : ((Visit.creators w visits).map Prod.fst).Nodup)
    (hkeep : ∀ v ∈ visits, KeepsToOwn w visits v) {alone : List (Visit κ μ)}
    (halone : List.Forall₂ SameCall (visits.filter fun v => v.client = c) alone) :
    List.Forall₂ (Alike w) ((Visit.run w visits Store.empty).1.filter fun x => x.1.client = c)
        (Visit.run w alone Store.empty).1 ∧
      IsPart (fun id => (id, c) ∈ Visit.creators w visits) (Visit.run w visits Store.empty).2
        (Visit.run w alone Store.empty).2 := by
  refine run_of_client hw _ (fun id => ∃ d, (id, d) ∈ Visit.creators w visits) ?_ ?_ ?_ halone
    ⟨fun _ _ => rfl, fun _ _ => rfl⟩ fun _ _ => rfl
  · rintro v hv rfl
    refine ⟨(hkeep v hv).no_listing, fun id hid => ?_, fun p hp => Visit.mem_creators_of_creation hv hp⟩
    rw [or_iff_not_imp_right, not_not]
    rintro ⟨d, hd⟩
    have hclient : d = v.client := (hkeep v hv).own (id, d) hd hid
    exact hclient ▸ hd
  · intro v hv hother
    refine ⟨fun id hid hmine => ?_, fun p hp hmine => ?_⟩
    · exact hother ((hkeep v hv).own (id, c) hmine hid).symm
    · exact hother (creator_unique hdistinct (Visit.mem_creators_of_creation hv hp) hmine)
  · exact fun v hv p hp => ⟨v.client, Visit.mem_creators_of_creation hv hp⟩

end

/-- Two clients take turns: each creates a pet, one of them fetches its own, the other deletes its own and asks for
one that nobody creates. -/
def twoClients (m : Loopback.Moment) : List (Visit Bool Loopback.Moment) :=
  let config := Config.ofAddress Loopback.address
  [⟨true, config, createWith "Rex" none, m, .ofNat 0⟩, ⟨false, config, createWith "Tom" none, m, .ofNat 1⟩,
    ⟨true, config, .ofPath .get (petPath (.ofNat 0)), m, .ofNat 2⟩,
    ⟨false, config, .ofPath .delete (petPath (.ofNat 1)), m, .ofNat 3⟩,
    ⟨false, config, .ofPath .get (petPath (.ofNat 9)), m, .ofNat 4⟩]

/-- Some other moment. -/
def Loopback.later : Loopback.Moment := ⟨"Fri, 02 Jan 1970 00:00:00 GMT", "border", by decide⟩

end PetStore

end ApiClient
