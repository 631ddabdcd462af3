import ApiClient.Proofs.PetStore.Creation

/-!
# Naming pets by spellings of their identifiers

A segment is sent with its colons replaced (`cleanPath_segmentPath`), and an identifier is read from that exactly when
the segment was one of the spellings of the identifier (`parse?_sentSegment_eq_some_iff`).  So a call to `/pets/` with
a segment reaches the pet of which the segment spells the identifier, and is refused if no identifier is spelled
(`spelling_reaches_pet`).  A segment may be too long to be sent (`spelling_unsent`).
-/

namespace ApiClient

/-- An outcome with another URL. -/
def outcomeAt (url : String) : Except CallError Answer → Except CallError Answer
  | .ok a => .ok { a with url }
  | .error (.failed (.status a message)) => .error (.failed (.status { a with url } message))
  | .error (.failed (.generic a)) => .error (.failed (.generic { a with url }))
  | .error e => .error e

namespace PetStore

open Text
open Uuid (Spells)

/-! ### The segment that is sent -/

/-- A segment without colons. -/
def cleanSegment (segment : List Char) : List Char := segment.map fun c => if c = ':' then '_' else c

/-- A segment as it is sent. -/
def sentSegment (segment : List Char) : String := String.ofList (cleanSegment segment)

/-- The path to what a segment names. -/
def segmentPath (segment : List Char) : String := "/pets/" ++ String.ofList segment

/-- A call with a method and the path to what a segment names. -/
def segmentCall (d : Descriptor) (method : Http.Method) (segment : List Char) : Descriptor :=
  { d with method, path := segmentPath segment }

private theorem mem_cleanSegment {segment : List Char} {c : Char} (h : c ∈ cleanSegment segment) :
    c ∈ segment ∧ c ≠ ':' ∨ c = '_' := by
  obtain ⟨d, hd, rfl⟩ := List.mem_map.1 h
  by_cases hcolon : d = ':'
  · exact .inr (if_pos hcolon)
  · rw [if_neg hcolon]
    exact .inl ⟨hd, hcolon⟩

private theorem colon_not_mem_cleanSegment (segment : List Char) : ':' ∉ cleanSegment segment := by
  intro h
  rcases mem_cleanSegment h with ⟨-, h⟩ | h
  · exact h rfl
  · cases h

theorem cleanSegment_of_not_mem {segment : List Char} (h : ':' ∉ segment) : cleanSegment segment = segment := by
  have hid : ∀ c ∈ segment, (if c = ':' then '_' else c) = c := by
    intro c hc
    refine if_neg ?_
    rintro rfl
    exact h hc
  rw [cleanSegment, List.map_congr_left hid, List.map_id']

theorem cleanPath_segmentPath (segment : List Char) :
    Query.cleanPath (segmentPath segment) = pathText ["pets", sentSegment segment] := by
  have hpets : "/pets/".toList.map (fun c => if c = ':' then '_' else c) = '/' :: ("pets".toList ++ ['/']) := by
    decide +kernel
  rw [← String.toList_inj, Query.cleanPath, String.toList_map, segmentPath, String.toList_append, List.map_append,
    hpets, pathText]
  simp [sentSegment, cleanSegment]

/-! ### Spellings are what the store reads -/

/-- A colon becomes a character that no spelling has. -/
theorem spells_cleanSegment_iff {id : Uuid} {segment : List Char} :
    Spells id (cleanSegment segment) ↔ Spells id segment := by
  by_cases hcolon : ':' ∈ segment
  · have hmem : '_' ∈ cleanSegment segment := List.mem_map.2 ⟨':', hcolon, rfl⟩
    constructor
    · intro h
      exact absurd hmem (h.not_mem (by decide))
    · intro h
      exact absurd hcolon (h.not_mem (by decide))
  · rw [cleanSegment_of_not_mem hcolon]

theorem parse?_sentSegment_eq_some_iff {id : Uuid} {segment : List Char} :
    Uuid.parse? (sentSegment segment) = some id ↔ Spells id segment := by
  have hcolon : ':' ∉ (sentSegment segment).toList := by
    rw [sentSegment, String.toList_ofList]
    exact colon_not_mem_cleanSegment segment
  rw [Uuid.parse?_eq_some_iff hcolon, sentSegment, String.toList_ofList, spells_cleanSegment_iff]

private theorem parse?_sentSegment_eq_none {segment : List Char} (h : ∀ id, ¬Spells id segment) :
    Uuid.parse? (sentSegment segment) = none := by
  rw [Option.eq_none_iff_forall_ne_some]
  intro id hid
  exact h id (parse?_sentSegment_eq_some_iff.1 hid)

/-! ### Segments that may name a pet -/

/-- Letters, digits, hyphens, braces and colons, and at least one of them. -/
def IsName (segment : List Char) : Prop :=
  segment ≠ [] ∧ ∀ c ∈ segment, c.isAlphanum = true ∨ c ∈ ['-', '{', '}', ':']

private theorem IsName.plain {segment : List Char} (h : IsName segment) :
    (sentSegment segment).toList.all isPlainChar = true := by
  have hlisted : ∀ c ∈ ['-', '{', '}', ':'], c ≠ ':' → isPlainChar c = true :=
    forall_mem_of_all (by decide)
  rw [sentSegment, String.toList_ofList, List.all_eq_true]
  intro c hc
  rcases mem_cleanSegment hc with ⟨hc, hcolon⟩ | rfl
  · rcases h.2 c hc with halphanum | hmem
    · rw [isPlainChar, isWordChar, halphanum, Bool.true_or, Bool.true_or]
    · exact hlisted c hmem hcolon
  · decide

private theorem IsName.sentSegment_ne_empty {segment : List Char} (h : IsName segment) :
    sentSegment segment ≠ "" := by
  intro hempty
  have hnil : cleanSegment segment = [] := by
    rw [← String.toList_inj, sentSegment, String.toList_ofList] at hempty
    exact hempty
  exact h.1 (List.map_eq_nil_iff.1 hnil)

theorem Uuid.Spells.isName {id : Uuid} {segment : List Char} (h : Spells id segment) : IsName segment := by
  have hlisted : ['-', '{', '}'] ⊆ ['-', '{', '}', ':'] := by decide
  refine ⟨h.ne_nil, fun c hc => ?_⟩
  rcases h.value?_ne_none_or hc with hvalue | hother
  · exact .inl (Hex.isAlphanum_of_value? hvalue)
  · exact .inr (hlisted hother)

/-! ### Calls -/

theorem outcomeAt_fetchOutcome (url url' : String) (found : Option Pet) :
    outcomeAt url (fetchOutcome url' found) = fetchOutcome url found := by
  cases found <;> rfl

theorem outcomeAt_deleteOutcome (url url' : String) (found : Option Pet) :
    outcomeAt url (deleteOutcome url' found) = deleteOutcome url found := by
  cases found <;> rfl

section
variable {μ : Type} {w : Framework μ} {address : String} (hw : w.Lawful address) (occasions : Nat → Occasion μ)
  (service : Service) {d : Descriptor} (hd : d.IsPlain)
  (hsendable : Http.isSendable (d.requestHeaders (.ofAddress address)) = true) {segment : List Char}
  (hsegment : IsName segment)
include hw hd hsendable hsegment

/-- Fetching what a segment names comes to what is found under the identifier that it spells, and changes nothing. -/
theorem call_fetch_name (hfits : w.Fits ((segmentCall d .get segment).request (.ofAddress address))) :
    let d := segmentCall d .get segment
    let call := (storeTransport w occasions).call (.ofAddress address) d service
    call.2.store = service.store ∧
      (∀ id, Spells id segment →
        call.1.outcome = fetchOutcome (d.url (.ofAddress address)) (service.store.find? id)) ∧
      ((∀ id, ¬Spells id segment) → ∃ content,
        call.1.outcome = badRequestOutcome (d.url (.ofAddress address)) content) := by
  intro d call
  obtain ⟨a, houtcome, hstore⟩ := call_fetch_segment hw occasions service (d := d) hsendable hfits
    (cleanPath_segmentPath segment) hsegment.plain hsegment.sentSegment_ne_empty rfl
  obtain ⟨hread, hunread⟩ := replyOutcome_fetch hw.answers (occasions service.requests).moment
    (d.url (.ofAddress address)) hw.reads (d := d) hd (show Http.Method.get ≠ .head by decide) a
    (sentSegment segment) service.store
  refine ⟨hstore, fun id hid => ?_, fun hnone => ?_⟩
  · exact houtcome.trans (hread id (parse?_sentSegment_eq_some_iff.2 hid))
  · obtain ⟨content, hcontent⟩ := hunread (parse?_sentSegment_eq_none hnone)
    exact ⟨content, houtcome.trans hcontent⟩

theorem call_delete_name (hfits : w.Fits ((segmentCall d .delete segment).request (.ofAddress address))) :
    let d := segmentCall d .delete segment
    let call := (storeTransport w occasions).call (.ofAddress address) d service
    (∀ id, Spells id segment → call.2.store = service.store.erase id ∧
        call.1.outcome = deleteOutcome (d.url (.ofAddress address)) (service.store.find? id)) ∧
      ((∀ id, ¬Spells id segment) → call.2.store = service.store ∧ ∃ content,
        call.1.outcome = badRequestOutcome (d.url (.ofAddress address)) content) := by
  intro d call
  obtain ⟨a, houtcome, hstore⟩ := call_delete_segment hw occasions service (d := d) hsendable hfits
    (cleanPath_segmentPath segment) hsegment.plain hsegment.sentSegment_ne_empty rfl
  obtain ⟨hread, hunread⟩ := replyOutcome_delete hw.answers (occasions service.requests).moment
    (d.url (.ofAddress address)) hw.reads (d := d) hd a (sentSegment segment) service.store
  constructor
  · intro id hid
    have hparse := parse?_sentSegment_eq_some_iff.2 hid
    rw [hparse] at hstore
    exact ⟨hstore, houtcome.trans (hread id hparse)⟩
  · intro hnone
    have hparse := parse?_sentSegment_eq_none hnone
    rw [hparse] at hstore
    obtain ⟨content, hcontent⟩ := hunread hparse
    exact ⟨hstore, content, houtcome.trans hcontent⟩

end

/-- A segment reaches a pet exactly by spelling its identifier, if the requests for it are within the limits.  If the
identifier that it spells is that of no pet, the pet is not found, and if it spells none, as with any colon in it, the
call is refused; then nothing changes.  Which spelling is used makes no difference but to the URL. -/
theorem spelling_reaches_pet {μ : Type} {w : Framework μ} {address : String} (hw : w.Lawful address)
    (occasions : Nat → Occasion μ) (service : Service) {d : Descriptor} (hd : d.IsPlain)
    (hsendable : Http.isSendable (d.requestHeaders (.ofAddress address)) = true) {segment : List Char}
    (hsegment : IsName segment) (hget : w.Fits ((segmentCall d .get segment).request (.ofAddress address)))
    (hdelete : w.Fits ((segmentCall d .delete segment).request (.ofAddress address))) :
    let t := storeTransport w occasions
    let config := Config.ofAddress address
    let get := segmentCall d .get segment
    let delete := segmentCall d .delete segment
    let url := get.url config
    (t.call config get service).2.store = service.store ∧
      (∀ p ∈ service.store.pets, Spells p.id segment →
        (t.call config get service).1.outcome = foundOutcome url (JsonModel.toJson p) ∧
          (t.call config delete service).1.outcome = deletedOutcome url ∧
          (t.call config delete service).2.store = service.store.erase p.id) ∧
      (∀ id, Spells id segment → (∀ p ∈ service.store.pets, p.id ≠ id) →
        (t.call config get service).1.outcome = notFoundOutcome url ∧
          (t.call config delete service).1.outcome = notFoundOutcome url ∧
          (t.call config delete service).2.store = service.store) ∧
      ((∀ id, ¬Spells id segment) →
        (∃ content, (t.call config get service).1.outcome = badRequestOutcome url content) ∧
          (∃ content, (t.call config delete service).1.outcome = badRequestOutcome url content) ∧
          (t.call config delete service).2.store = service.store) ∧
      (':' ∈ segment → ∀ id, ¬Spells id segment) ∧
      ∀ id other, Spells id segment → Spells id other → ∀ method ∈ [Http.Method.get, .delete],
        w.Fits ((segmentCall d method other).request config) →
          outcomeAt url (t.call config (segmentCall d method other) service).1.outcome =
            (t.call config (segmentCall d method segment) service).1.outcome := by
  dsimp only
  obtain ⟨hkept, hfetched, hunfetched⟩ := call_fetch_name hw occasions service hd hsendable hsegment hget
  obtain ⟨hdeleted, hundeleted⟩ := call_delete_name hw occasions service hd hsendable hsegment hdelete
  refine ⟨hkept, fun p hp hspells => ?_, fun id hspells hnone => ?_, fun hnone => ?_, fun hcolon id hspells => ?_,
    fun id other hspells hother => ?_⟩
  · have hfind : service.store.find? p.id = some p := Store.find?_eq_some_iff.2 ⟨hp, rfl⟩
    obtain ⟨hstore, houtcome⟩ := hdeleted p.id hspells
    have hfetch := hfetched p.id hspells
    rw [hfind] at hfetch houtcome
    exact ⟨hfetch, houtcome, hstore⟩
  · have hfind : service.store.find? id = none := Store.find?_eq_none_iff.2 hnone
    obtain ⟨hstore, houtcome⟩ := hdeleted id hspells
    have hfetch := hfetched id hspells
    rw [hfind] at hfetch houtcome
    exact ⟨hfetch, houtcome, hstore.trans (Store.erase_of_find?_none hfind)⟩
  · obtain ⟨hstore, houtcome⟩ := hundeleted hnone
    exact ⟨hunfetched hnone, houtcome, hstore⟩
  · exact hspells.not_mem (by decide) hcolon
  · simp only [List.mem_cons, List.not_mem_nil, or_false, forall_eq_or_imp, forall_eq]
    constructor
    · intro hfits
      obtain ⟨-, hother', -⟩ := call_fetch_name hw occasions service hd hsendable hother.isName hfits
      rw [hfetched id hspells, hother' id hother]
      exact outcomeAt_fetchOutcome _ _ _
    · intro hfits
      obtain ⟨hother', -⟩ := call_delete_name hw occasions service hd hsendable hother.isName hfits
      rw [(hdeleted id hspells).2, (hother' id hother).2]
      exact outcomeAt_deleteOutcome _ _ _

/-- A spelling in braces, its letters in either case. -/
def bracedSegment : List Char := "\x7b00000000-0000-0000-0000-0000000000aB\x7d".toList

theorem spells_bracedSegment : Spells (Uuid.ofNat 0xAB) bracedSegment := by
  have hdigits : Uuid.IsDigits "000000000000000000000000000000aB".toList (Uuid.ofNat 0xAB).digits := by decide +kernel
  have hbraced : bracedSegment =
      '{' :: (Uuid.group Uuid.groupSizes "000000000000000000000000000000aB".toList ++ ['}']) := by decide +kernel
  rw [hbraced]
  exact .braced hdigits

theorem spelling_reaches_pet_braced :
    let t := storeTransport loopback (Loopback.occasions 0xAB)
    let config := Config.ofAddress Loopback.address
    let service := (t.call config (createWith "Rex" none) Service.start).2
    let d := Descriptor.ofPath .get "/"
    let p : Pet := ⟨Uuid.ofNat 0xAB, "Rex", none⟩
    let url := (segmentCall d .get bracedSegment).url config
    loopback.Lawful Loopback.address ∧ d.IsPlain ∧ Http.isSendable (d.requestHeaders config) = true ∧
      IsName bracedSegment ∧ loopback.Fits ((segmentCall d .get bracedSegment).request config) ∧
      loopback.Fits ((segmentCall d .delete bracedSegment).request config) ∧
      p ∈ service.store.pets ∧ Spells p.id bracedSegment ∧
      (t.call config (segmentCall d .get bracedSegment) service).1.outcome = foundOutcome url (JsonModel.toJson p) ∧
      (t.call config (segmentCall d .delete bracedSegment) service).1.outcome = deletedOutcome url ∧
      (t.call config (segmentCall d .delete bracedSegment) service).2.store.pets = [] := by
  intro t config service d p url
  have hplain : d.IsPlain := ⟨rfl, rfl⟩
  have hsendable : Http.isSendable (d.requestHeaders config) = true := isSendable_requestHeaders _ rfl nofun
  have hname : IsName bracedSegment := spells_bracedSegment.isName
  have hfits : ∀ method ∈ [Http.Method.get, .delete],
      loopback.Fits ((segmentCall d method bracedSegment).request config) := by
    have hshort : 3 * ((segmentCall d .get bracedSegment).url config).length ≤ Loopback.maxUrl := by decide +kernel
    intro method hmethod
    refine ⟨hshort, ?_, rfl⟩
    intro data hdata
    obtain rfl := Option.some.inj hdata
    exact Nat.zero_le _
  have hget := hfits .get (by simp)
  have hdelete := hfits .delete (by simp)
  have hpets : service.store.pets = [p] := by decide +kernel
  have hmem : p ∈ service.store.pets := by rw [hpets]; exact List.mem_singleton_self p
  obtain ⟨-, hreach, -⟩ := spelling_reaches_pet loopback_lawful (Loopback.occasions 0xAB) service hplain hsendable
    hname hget hdelete
  obtain ⟨hfetched, hdeleted, hstore⟩ := hreach p hmem spells_bracedSegment
  have herase : (service.store.erase p.id).pets = [] := by decide +kernel
  refine ⟨loopback_lawful, hplain, hsendable, hname, hget, hdelete, hmem, spells_bracedSegment, hfetched, hdeleted,
    ?_⟩
  rw [hstore, herase]

/-- A segment of seventy thousand letters spells no identifier, but the call is not refused: it is not sent. -/
theorem spelling_unsent :
    let t := storeTransport loopback (Loopback.occasions 0)
    let config := Config.ofAddress Loopback.address
    let segment := List.replicate 70000 'g'
    let get := segmentCall (.ofPath .get "/") .get segment
    get.IsPlain ∧ IsName segment ∧ (∀ id, ¬Spells id segment) ∧
      (t.call config get Service.start).1.outcome = .error (.transport "builder error") ∧
      ∀ content, (t.call config get Service.start).1.outcome ≠ badRequestOutcome (get.url config) content := by
  intro t config segment get
  have hletter : ∀ c ∈ segment, c = 'g' := fun c hc => List.eq_of_mem_replicate hc
  have hlength : segment.length = 70000 := List.length_replicate
  have hmem : 'g' ∈ segment := List.mem_replicate.2 ⟨by omega, rfl⟩
  have hname : IsName segment := by
    refine ⟨List.ne_nil_of_mem hmem, fun c hc => .inl ?_⟩
    rw [hletter c hc]
    decide
  have hunsent : (t.call config get Service.start).1.outcome = .error (.transport "builder error") := by
    obtain ⟨target, htarget⟩ : ∃ target : Loopback.Target, target = ⟨["pets", sentSegment segment], none⟩ := ⟨_, rfl⟩
    have hplain : target.isPlain = true := by
      rw [htarget, Loopback.Target.isPlain, List.all_cons, List.all_cons, hname.plain]
      decide
    have hurl : (get.request config).url = target.url := by
      rw [htarget]
      exact url_ofAddress (cleanPath_segmentPath segment) []
    have hsent : (sentSegment segment).length = 70000 := by
      rw [sentSegment, String.length_ofList, cleanSegment, List.length_map, hlength]
    refine outcome_of_failure (Loopback.arrive_of_long _ hplain hurl ?_)
    rw [hurl, Loopback.length_url, htarget]
    simp only [List.map_cons, List.map_nil, List.sum_cons, hsent, Loopback.maxUrl]
    omega
  refine ⟨⟨rfl, rfl⟩, hname, fun id hspells => hspells.not_mem (by decide) hmem, hunsent, ?_⟩
  rw [hunsent]
  intro content h
  cases h

end PetStore

end ApiClient
