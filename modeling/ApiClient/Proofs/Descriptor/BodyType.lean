import ApiClient.Proofs.Descriptor.Merge

/-!
# The body of a request and its content type

The content type and the payload of a request are worked out apart from each other, each from the body and the form of
the description.  They agree (`contentType_agrees`): a description whose headers have no content type makes a request
with one exactly when the payload is text or bytes of a declared type.
-/

namespace ApiClient

namespace Body

/-- The bodies that count as none: empty text, and `null`, `false`, `""` and the zeros among JSON values. -/
inductive Blank : Body → Prop
  | text : Blank (.text "")
  | null : Blank (.json .null)
  | no : Blank (.json (.bool false))
  | string : Blank (.json (.str ""))
  | int (h : -0x8000000000000000 ≤ (0 : Int) ∧ (0 : Int) < 0x10000000000000000) : Blank (.json (.num (.int 0 h)))
  | float {x : Binary64} (h : x.magnitude = 0) : Blank (.json (.num (.float x)))

theorem isPresent_eq_false_iff (b : Body) : b.isPresent = false ↔ b.Blank := by
  constructor
  · intro h
    cases b with
    | binary data declared => cases h
    | text s =>
      obtain rfl : s = "" := by simpa [isPresent] using h
      exact .text
    | json v =>
      cases v with
      | null => exact .null
      | bool b =>
        obtain rfl : b = false := h
        exact .no
      | num n =>
        cases n with
        | int n hn =>
          obtain rfl : n = 0 := by simpa [isPresent, isTruthy, Json.Number.isZero] using h
          exact .int hn
        | float x => exact .float (by simpa [isPresent, isTruthy, Json.Number.isZero, Binary64.isZero] using h)
      | str s =>
        obtain rfl : s = "" := by simpa [isPresent, isTruthy] using h
        exact .string
      | arr items => cases h
      | obj members => cases h
  · intro h
    cases h with
    | float h => simp [isPresent, isTruthy, Json.Number.isZero, Binary64.isZero, h]
    | _ => rfl

/-- The media type of a body, whether or not it takes part in the call. -/
def mediaType? : Body → Option String
  | .binary _ declared => declared
  | .text _ => some "text/plain"
  | .json _ => some "application/json"

theorem contentType?_eq_some_iff {b : Body} {t : String} :
    b.contentType? = some t ↔ b.isPresent = true ∧ b.mediaType? = some t ∧ t ≠ "" := by
  have htext : "text/plain" ≠ "" := by decide
  have hjson : "application/json" ≠ "" := by decide
  unfold contentType?
  by_cases hpresent : b.isPresent = true
  · rw [if_pos hpresent]
    cases b with
    | binary data declared => simp [isPresent, mediaType?, Option.filter_eq_some_iff]
    | text s =>
      simp only [hpresent, mediaType?, Option.some.injEq, true_and]
      exact ⟨fun h => ⟨h, h ▸ htext⟩, And.left⟩
    | json v =>
      simp only [hpresent, mediaType?, Option.some.injEq, true_and]
      exact ⟨fun h => ⟨h, h ▸ hjson⟩, And.left⟩
  · simp [hpresent]

end Body

namespace Descriptor

/-! ### The payload -/

variable {d : Descriptor}

theorem payload_of_form {fields : List (String × Json)} (hform : d.form = some fields) :
    d.payload = some (.form ((fields.filter fun f => f.2 ≠ .null).map fun f => (f.1, Query.valueText f.2))) := by
  have htexts : ∀ fields : List (String × Json),
      formTexts fields = (fields.filter fun f => f.2 ≠ .null).map fun f => (f.1, Query.valueText f.2) := by
    intro fields
    induction fields with
    | nil => rfl
    | cons f rest ih =>
      obtain ⟨key, v⟩ := f
      rw [formTexts] at ih ⊢
      rw [List.filterMap_cons, ih, List.filter_cons]
      cases v <;> simp
  simp only [payload, hform, htexts]

theorem payload_of_present (hform : d.form = none) {b : Body} (hbody : d.body = some b)
    (hpresent : b.isPresent = true) :
    d.payload = some b.payload := by
  simp only [payload, hform, hbody, Option.filter_some, hpresent, if_true, Option.map_some]

theorem payload_of_absent (hform : d.form = none) (hbody : ∀ b, d.body = some b → b.isPresent = false) :
    d.payload = none := by
  have hnone : d.body.filter Body.isPresent = none := Option.filter_eq_none_iff.2 fun b hb => by simp [hbody b hb]
  simp only [payload, hform, hnone, Option.map_none]

/-- What is sent is nothing, or else the body, which is there and counts. -/
theorem payload_cases (hform : d.form = none) :
    (d.payload = none ∧ ∀ b, d.body = some b → b.isPresent = false) ∨
      ∃ b, d.payload = some b.payload ∧ d.body = some b ∧ b.isPresent = true := by
  by_cases h : ∃ b, d.body = some b ∧ b.isPresent = true
  · obtain ⟨b, hbody, hpresent⟩ := h
    exact .inr ⟨b, payload_of_present hform hbody hpresent, hbody, hpresent⟩
  · have habsent : ∀ b, d.body = some b → b.isPresent = false := fun b hbody =>
      Bool.eq_false_iff.2 fun hpresent => h ⟨b, hbody, hpresent⟩
    exact .inl ⟨payload_of_absent hform habsent, habsent⟩

/-! ### The content type -/

section
variable (config : Config) (hcaller : d.headers.has "content-type" = false)
include hcaller

theorem find?_contentType :
    (d.request config).headers.find? "content-type" =
      if d.form.isSome then none else d.body >>= Body.contentType? := by
  have hname : Text.SameName "content-type" "Content-Type" := by decide
  have hbefore : Http.Headers.find? (mergedHeaders d.headers ++ config.authorization) "Content-Type" = none := by
    rw [← Option.not_isSome_iff_eq_none, Http.Headers.isSome_find?, has_contentType, ← Http.Headers.isSome_find?,
      ← Http.Headers.find?_congr _ hname, Http.Headers.isSome_find?, hcaller]
    exact Bool.false_ne_true
  show (d.requestHeaders config).find? "content-type" = _
  rw [Http.Headers.find?_congr _ hname, requestHeaders, Http.Headers.find?_append, hbefore, Option.none_or,
    contentTypeHeader]
  split
  · rfl
  · cases d.body >>= Body.contentType? with
    | none => rfl
    | some t => rw [Http.Headers.find?_cons, if_pos (Text.SameName.refl _)]

theorem find?_contentType_eq_some_iff {t : String} :
    (d.request config).headers.find? "content-type" = some t ↔
      d.form = none ∧ ∃ b, d.body = some b ∧ b.isPresent = true ∧ b.mediaType? = some t ∧ t ≠ "" := by
  rw [find?_contentType config hcaller]
  cases d.form with
  | some fields => simp
  | none => simp [Option.bind_eq_some_iff, Body.contentType?_eq_some_iff]

/-- There is a content type exactly when there is a payload that has one. -/
theorem isSome_contentType_iff :
    ((d.request config).headers.find? "content-type").isSome = true ↔
      (∃ t, d.payload = some (.text t)) ∨
        ∃ data t, d.payload = some (.bytes data) ∧ d.body = some (.binary data (some t)) ∧ t ≠ "" := by
  rw [Option.isSome_iff_exists]
  constructor
  · rintro ⟨t, ht⟩
    obtain ⟨hform, b, hbody, hpresent, hmedia, hne⟩ := (find?_contentType_eq_some_iff config hcaller).1 ht
    have hpayload := payload_of_present hform hbody hpresent
    cases b with
    | binary data declared =>
      obtain rfl : declared = some t := hmedia
      exact .inr ⟨data, t, hpayload, hbody, hne⟩
    | text s => exact .inl ⟨s, hpayload⟩
    | json v => exact .inl ⟨v.render, hpayload⟩
  · intro h
    have hform : d.form = none := by
      cases hform : d.form with
      | none => rfl
      | some fields =>
        rw [payload_of_form hform] at h
        rcases h with ⟨t, ht⟩ | ⟨data, t, ht, -⟩ <;> cases ht
    rcases payload_cases hform with ⟨hnone, -⟩ | ⟨b, hpayload, hbody, hpresent⟩
    · rw [hnone] at h
      rcases h with ⟨t, ht⟩ | ⟨data, t, ht, -⟩ <;> cases ht
    · have hmedia : ∃ t, b.mediaType? = some t ∧ t ≠ "" := by
        rw [hpayload] at h
        rcases h with ⟨t, ht⟩ | ⟨data, t, -, hbinary, hne⟩
        · cases b with
          | binary data declared => cases ht
          | text s => exact ⟨_, rfl, by decide⟩
          | json v => exact ⟨_, rfl, by decide⟩
        · obtain rfl : b = .binary data (some t) := Option.some.inj (hbody.symm.trans hbinary)
          exact ⟨t, rfl, hne⟩
      obtain ⟨t, hmedia, hne⟩ := hmedia
      exact ⟨t, (find?_contentType_eq_some_iff config hcaller).2 ⟨hform, b, hbody, hpresent, hmedia, hne⟩⟩

end

/-- If the caller gives no content type, the one of the request is that of the body, and there is one exactly when the
payload is text or bytes of a declared type.  A form takes the place of the body, without the fields that are `null`,
and without one nothing is sent exactly when the body is not there or counts as none. -/
theorem contentType_agrees (config : Config) {d : Descriptor} (hcaller : d.headers.has "content-type" = false) :
    let r := d.request config
    let contentType := r.headers.find? "content-type"
    (contentType.isSome = true ↔ (∃ t, r.payload = some (.text t)) ∨
      ∃ data t, r.payload = some (.bytes data) ∧ d.body = some (.binary data (some t)) ∧ t ≠ "") ∧
    (∀ t, contentType = some t → ∃ b, d.body = some b ∧ b.mediaType? = some t) ∧
    (∀ fields, d.form = some fields → d.contentTypeHeader = [] ∧ contentType = none ∧
      r.payload = some (.form ((fields.filter fun f => f.2 ≠ .null).map fun f => (f.1, Query.valueText f.2)))) ∧
    (d.form = none → (r.payload = none ↔ ∀ b, d.body = some b → b.isPresent = false)) ∧
    ∀ b : Body, b.isPresent = false ↔ b.Blank := by
  intro r contentType
  refine ⟨isSome_contentType_iff config hcaller, ?_, ?_, ?_, Body.isPresent_eq_false_iff⟩
  · intro t ht
    obtain ⟨-, b, hbody, -, hmedia, -⟩ := (find?_contentType_eq_some_iff config hcaller).1 ht
    exact ⟨b, hbody, hmedia⟩
  · intro fields hform
    have hnone : contentType = none := by
      rw [Option.eq_none_iff_forall_ne_some]
      intro t ht
      have hform' := ((find?_contentType_eq_some_iff config hcaller).1 ht).1
      cases hform.symm.trans hform'
    exact ⟨by rw [contentTypeHeader, hform]; rfl, hnone, payload_of_form hform⟩
  · intro hform
    constructor
    · intro hnone b hbody
      rw [Bool.eq_false_iff]
      intro hpresent
      cases hnone.symm.trans (payload_of_present hform hbody hpresent)
    · exact payload_of_absent hform

/-- Bytes that are none, with a declared type. -/
theorem contentType_agrees_binary :
    let d := ((ofPath .put "/files/1").apply (.header "accept" "image/png")).apply
      (.body (.binary [] (some "image/png")))
    let r := d.request ⟨"http://x", some "t0k"⟩
    d.headers.has "content-type" = false ∧ (r.headers.find? "content-type").isSome = true ∧
      r.headers.find? "content-type" = some "image/png" ∧ r.payload = some (.bytes []) := by
  intro d r
  have hcaller : d.headers.has "content-type" = false := by decide
  have hagrees := contentType_agrees ⟨"http://x", some "t0k"⟩ hcaller
  have hsome := hagrees.1.2 (.inr ⟨[], "image/png", rfl, rfl, by decide⟩)
  obtain ⟨t, ht⟩ := Option.isSome_iff_exists.1 hsome
  obtain ⟨b, hbody, hmedia⟩ := hagrees.2.1 t ht
  obtain rfl : b = .binary [] (some "image/png") := (Option.some.inj hbody).symm
  obtain rfl : "image/png" = t := Option.some.inj hmedia
  exact ⟨hcaller, hsome, ht, rfl⟩

end Descriptor

end ApiClient
