import ApiClient.Proofs.PetStore.Creation

/-!
# Pets found by their tag

The tag of a pet goes to the store as JSON in a body, the tag that is asked for as form-encoded text in a query; the
store compares what is read from the two.  A listing by tag has the pets with that tag and no others (`lists_tag`),
and a pet that is created with a name and a tag has these, whatever their characters.  So it is listed by its tag
until it is deleted (`tagged_pets_listed`).
-/

namespace ApiClient.PetStore

variable {μ : Type} {w : Framework μ}

/-- The call that lists pets, with a value for the tag. -/
def listCall (tag : Json) : Descriptor := (Descriptor.ofPath .get "/pets").apply (.query "tag" tag)

/-- The call that creates a pet with a name and a tag. -/
def createCall (name tag : String) : Descriptor :=
  (Descriptor.ofPath .post "/pets").apply (.jsonBody (.obj [("name", .str name), ("tag", .str tag)]))

/-- An outcome reports the pets that satisfy `P`, each once and in the order of their names. -/
def Lists (url : String) (outcome : Except CallError Answer) (P : Pet → Prop) : Prop :=
  ∃ listed : List Pet, outcome = foundOutcome url (.arr (listed.map JsonModel.toJson)) ∧ listed.Nodup ∧
    (listed.Pairwise fun p q => p.name ≤ q.name) ∧ ∀ p, p ∈ listed ↔ P p

/-! ### Listings -/

section
variable {address : String} (hw : w.Lawful address) (occasions : Nat → Occasion μ) (service : Service)
include hw

private theorem outcome_listCall {v : Json} (hfits : w.Fits ((listCall v).request (.ofAddress address)))
    (tag : Option String)
    (hparams : ∀ q : Option String, Text.Form.decode (q.getD "").toList = Query.flatten (listCall v).query →
      w.listParams q = .ok ⟨tag, none⟩) :
    ((storeTransport w occasions).call (.ofAddress address) (listCall v) service).1.outcome =
      foundOutcome ((listCall v).url (.ofAddress address))
        (.arr ((listing tag none service.store.pets).map JsonModel.toJson)) := by
  have hsendable : Http.isSendable ((listCall v).requestHeaders (.ofAddress address)) = true :=
    isSendable_requestHeaders address rfl (by rintro _ _ ⟨⟩)
  exact outcome_listing hw occasions service hsendable hfits ⟨rfl, rfl⟩ rfl rfl ⟨tag, none⟩ hparams

/-- A listing by tag has the pets that are kept with that tag. -/
theorem lists_tag {tag : String} (hfits : w.Fits ((listCall (.str tag)).request (.ofAddress address))) :
    Lists ((listCall (.str tag)).url (.ofAddress address))
      ((storeTransport w occasions).call (.ofAddress address) (listCall (.str tag)) service).1.outcome
      fun p => p ∈ service.store.pets ∧ p.tag = some tag := by
  have hflatten : Query.flatten (listCall (.str tag)).query = [("tag", tag)] := rfl
  have houtcome := outcome_listCall hw occasions service hfits (some tag) fun q hq =>
    hw.reads.listParams_tag q tag (hq.trans hflatten)
  refine ⟨_, houtcome, nodup_listing_of_tag _ _, sorted_listing _ _, fun p => ?_⟩
  rw [mem_listing_iff]
  simp

/-- A listing with `null` for the tag has all pets that are kept. -/
theorem lists_null :
    Lists ((listCall .null).url (.ofAddress address))
      ((storeTransport w occasions).call (.ofAddress address) (listCall .null) service).1.outcome
      fun p => p ∈ service.store.pets := by
  have hclean : Query.cleanPath "/pets" = pathText ["pets"] := by decide +kernel
  have hheaders : ((listCall .null).request (.ofAddress address)).headers = [("Accept", "application/json")] := rfl
  have hfits : w.Fits ((listCall .null).request (.ofAddress address)) := by
    refine hw.carries.small _ _ _ (url_ofAddress hclean (listCall .null).query) rfl (by decide +kernel) ?_ ?_
    · rw [hheaders]
      decide
    · rw [hheaders]
      decide
  have houtcome := outcome_listCall hw occasions service hfits none fun q hq => hw.reads.listParams_nil q hq
  exact ⟨_, houtcome, nodup_listing _, sorted_listing _ _, fun _ => mem_listing⟩

end

/-! ### Sessions -/

/-- A pet that was created with a name and a tag in the course of a session is kept until it is deleted. -/
theorem kept_of_createCall {address : String} (hw : w.Lawful address) {occasions : Nat → Occasion μ}
    {calls : List (Config × Descriptor)} {name tag : String} {before after : List Exchange} {e : Exchange}
    (hlog : (session w occasions calls Service.start).1 = before ++ e :: after)
    (hrequest : e.request = (createCall name tag).request (.ofAddress address))
    (hfits : w.Fits ((createCall name tag).request (.ofAddress address))) :
    ∃ p, createdPet? w e = some p ∧ p.name = name ∧ p.tag = some tag ∧
      (HandsOutOnce w (session w occasions calls Service.start).1 → (∀ x ∈ after, deletedId? w x ≠ some p.id) →
        p ∈ (session w occasions calls Service.start).2.store.pets) := by
  have hmem : e ∈ (session w occasions calls Service.start).1 := by
    rw [hlog]
    exact List.mem_append_right _ List.mem_cons_self
  obtain ⟨o, s, he⟩ := exchange_of_mem_session hmem
  have hcreated := (exchange_createWith hw name (some (some tag)) hfits o s).1
  have hcall : createWith name (some (some tag)) = createCall name tag := rfl
  rw [hcall, ← hrequest, ← he] at hcreated
  refine ⟨_, hcreated, rfl, rfl, fun hfresh hafter => ?_⟩
  exact (mem_pets_iff_live hw occasions calls hfresh _).2 ⟨before, e, after, hlog, hcreated, hafter⟩

/-- After any session a listing by tag reports the pets that are kept with exactly that tag, and one with `null` for
the tag all of them.  A pet that was created with a name and a tag has these, and is kept until it is deleted, if no
identifier was handed out twice.  Sizes are taken to be within the limits. -/
theorem tagged_pets_listed {address : String} (hw : w.Lawful address) (occasions : Nat → Occasion μ)
    (calls : List (Config × Descriptor)) :
    let t := storeTransport w occasions
    let log := (session w occasions calls Service.start).1
    let last := (session w occasions calls Service.start).2
    let config := Config.ofAddress address
    let outcome (v : Json) := (t.call config (listCall v) last).1.outcome
    (∀ tag : String, w.Fits ((listCall (.str tag)).request config) →
      Lists ((listCall (.str tag)).url config) (outcome (.str tag)) fun p =>
        p ∈ last.store.pets ∧ p.tag = some tag) ∧
    Lists ((listCall .null).url config) (outcome .null) (fun p => p ∈ last.store.pets) ∧
    (HandsOutOnce w log → ∀ p, p ∈ last.store.pets ↔ Live w log p) ∧
    ∀ name tag before e after, log = before ++ e :: after → e.request = (createCall name tag).request config →
      w.Fits ((createCall name tag).request config) →
      ∃ p, createdPet? w e = some p ∧ p.name = name ∧ p.tag = some tag ∧
        (HandsOutOnce w log → (∀ x ∈ after, deletedId? w x ≠ some p.id) → p ∈ last.store.pets) := by
  intro t log last config outcome
  refine ⟨?_, ?_, ?_, ?_⟩
  · exact fun tag hfits => lists_tag hw occasions last hfits
  · exact lists_null hw occasions last
  · exact mem_pets_iff_live hw occasions calls
  · exact fun name tag before e after hlog hrequest hfits => kept_of_createCall hw hlog hrequest hfits

/-- A pet created whose name and tag have quotes, separators and characters beyond ASCII. -/
def taggedSession : List (Config × Descriptor) := [(.ofAddress Loopback.address, createCall "\"Rex\"" "a&b = c+%é#'")]

theorem tagged_pets_listed_separators :
    let t := storeTransport loopback (Loopback.occasions 0)
    let config := Config.ofAddress Loopback.address
    let log := (session loopback (Loopback.occasions 0) taggedSession Service.start).1
    let last := (session loopback (Loopback.occasions 0) taggedSession Service.start).2
    let d := listCall (.str "a&b = c+%é#'")
    loopback.Lawful Loopback.address ∧ loopback.Fits (d.request config) ∧ HandsOutOnce loopback log ∧
      ∃ listed : List Pet, (t.call config d last).1.outcome =
          foundOutcome (d.url config) (.arr (listed.map JsonModel.toJson)) ∧
        ∃ p ∈ listed, p.name = "\"Rex\"" ∧ p.tag = some "a&b = c+%é#'" := by
  have hcreate : loopback.Fits ((createCall "\"Rex\"" "a&b = c+%é#'").request (.ofAddress Loopback.address)) := by
    refine ⟨by decide +kernel, ?_, rfl⟩
    intro data hdata
    obtain rfl := Option.some.inj hdata
    decide +kernel
  have hlist : loopback.Fits ((listCall (.str "a&b = c+%é#'")).request (.ofAddress Loopback.address)) := by
    refine ⟨by decide +kernel, ?_, rfl⟩
    intro data hdata
    obtain rfl := Option.some.inj hdata
    decide
  intro t config log last d
  have hfresh : HandsOutOnce loopback log := handsOutOnce_of_nodup loopback_lawful (by decide +kernel)
  obtain ⟨htagged, -, -, hcreated⟩ := tagged_pets_listed loopback_lawful (Loopback.occasions 0) taggedSession
  obtain ⟨p, -, hname, htag, hkept⟩ := hcreated "\"Rex\"" "a&b = c+%é#'" [] _ [] rfl (request_exchange _) hcreate
  obtain ⟨listed, houtcome, -, -, hmem⟩ := htagged "a&b = c+%é#'" hlist
  have hkept' := hkept hfresh (List.forall_mem_nil _)
  exact ⟨loopback_lawful, hlist, hfresh, listed, houtcome, p, (hmem p).2 ⟨hkept', htag⟩, hname, htag⟩

end ApiClient.PetStore
