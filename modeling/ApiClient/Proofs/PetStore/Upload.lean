import ApiClient.Proofs.Json.RecordText
import ApiClient.Proofs.PetStore.Calls
import ApiClient.Proofs.PetStore.Loopback
import ApiClient.Proofs.Structured

/-!
# Uploads

The form fields that are not `null` are sent as texts, in order, and the store collects what is delivered to it, so
that the last text of every name is left (`lastTexts_reported`).  A call to `/upload` whose fields are delivered
therefore reports the last text of every name (`upload_returns_last_texts`), unless the least of the names is the key
of embedded text: then the reply stands for something else (`upload_read_as_embedded`).
-/

namespace ApiClient.PetStore

open Json
open Descriptor (formTexts formTexts_cons)

/-! ### The last text of every name -/

section
variable {f : String × Json} {fields : List (String × Json)} {name : String}

/-- `w` is the value of the last field with a name that is not `null`. -/
def IsLastValue (fields : List (String × Json)) (name : String) (w : Json) : Prop :=
  ∃ before after, fields = before ++ (name, w) :: after ∧ w ≠ .null ∧ ∀ f ∈ after, f.1 = name → f.2 = .null

/-- Every name of a field that is not `null` stands once, in order, with the text of the last such field. -/
structure LastTexts (fields ms : List (String × Json)) : Prop where
  ascending : Keyed.Ascending ms
  names : ∀ name, name ∈ ms.map Prod.fst ↔ ∃ w, (name, w) ∈ fields ∧ w ≠ .null
  values : ∀ name v, (name, v) ∈ ms ↔ ∃ w, IsLastValue fields name w ∧ v = .str (Query.valueText w)

private theorem isLastValue_cons {w : Json} :
    IsLastValue (f :: fields) name w ↔
      IsLastValue fields name w ∨ f = (name, w) ∧ w ≠ .null ∧ ∀ g ∈ fields, g.1 = name → g.2 = .null := by
  constructor
  · rintro ⟨before, after, heq, hw, hafter⟩
    cases before with
    | nil =>
      obtain ⟨rfl, rfl⟩ := List.cons.inj heq
      exact .inr ⟨rfl, hw, hafter⟩
    | cons g before => exact .inl ⟨before, after, (List.cons.inj heq).2, hw, hafter⟩
  · rintro (⟨before, after, rfl, hw, hafter⟩ | ⟨rfl, hw, hafter⟩)
    · exact ⟨f :: before, after, rfl, hw, hafter⟩
    · exact ⟨[], fields, rfl, hw, hafter⟩

private theorem mem_names_formTexts :
    name ∈ (formTexts fields).map Prod.fst ↔ ∃ w, (name, w) ∈ fields ∧ w ≠ .null := by
  simp only [formTexts, List.mem_map, List.mem_filterMap]
  constructor
  · rintro ⟨t, ⟨⟨key, value⟩, hf, ht⟩, rfl⟩
    cases value with
    | null => cases ht
    | _ =>
      cases ht
      exact ⟨_, hf, by simp⟩
  · rintro ⟨w, hw, hne⟩
    cases w with
    | null => exact absurd rfl hne
    | _ => exact ⟨_, ⟨_, hw, rfl⟩, rfl⟩

private theorem last?_eq_none_iff :
    Keyed.last? name (texts (formTexts fields)) = none ↔ name ∉ (formTexts fields).map Prod.fst := by
  have hkeys : (texts (formTexts fields)).map Prod.fst = (formTexts fields).map Prod.fst := by
    simp [texts, Function.comp_def]
  rw [Keyed.last?_eq_none_iff, hkeys]

private theorem last?_eq_none_iff_null :
    Keyed.last? name (texts (formTexts fields)) = none ↔ ∀ g ∈ fields, g.1 = name → g.2 = .null := by
  rw [last?_eq_none_iff, mem_names_formTexts]
  constructor
  · rintro hnone ⟨key, value⟩ hg rfl
    exact Decidable.byContradiction fun hne => hnone ⟨value, hg, hne⟩
  · rintro hnull ⟨w, hw, hne⟩
    exact hne (hnull _ hw rfl)

/-- The last text that is sent under a name is that of the last field which is not `null`. -/
private theorem last?_eq_some_iff {v : Json} :
    Keyed.last? name (texts (formTexts fields)) = some v ↔
      ∃ w, IsLastValue fields name w ∧ v = .str (Query.valueText w) := by
  induction fields with
  | nil => simp [formTexts, texts, Keyed.last?, Keyed.lookup, IsLastValue]
  | cons f rest ih =>
    obtain ⟨key, value⟩ := f
    simp only [isLastValue_cons, ← last?_eq_none_iff_null]
    by_cases hvalue : value = .null
    · -- A `null` is not sent, and it is not the last value either.
      rw [formTexts_cons, if_pos hvalue, ih]
      constructor
      · rintro ⟨w, hlast, hv⟩
        exact ⟨w, .inl hlast, hv⟩
      · rintro ⟨w, hlast | ⟨heq, hw, -⟩, hv⟩
        · exact ⟨w, hlast, hv⟩
        · cases heq
          exact absurd hvalue hw
    · have hcons : texts ((key, Query.valueText value) :: formTexts rest) =
          (key, .str (Query.valueText value)) :: texts (formTexts rest) := rfl
      rw [formTexts_cons, if_neg hvalue, hcons, Keyed.last?_cons, Option.or_eq_some_iff, ih]
      constructor
      · rintro (⟨w, hlast, hv⟩ | ⟨hnone, hsome⟩)
        · exact ⟨w, .inl hlast, hv⟩
        · split at hsome
          · rename_i heq
            cases Std.LawfulEqCmp.eq_of_compare heq
            exact ⟨value, .inr ⟨rfl, hvalue, hnone⟩, (Option.some.inj hsome).symm⟩
          · cases hsome
      · rintro ⟨w, hlast | ⟨heq, -, hnone⟩, rfl⟩
        · exact .inl ⟨w, hlast, rfl⟩
        · cases heq
          exact .inr ⟨hnone, if_pos Std.ReflCmp.compare_self⟩

end

theorem lastTexts_reported (fields : List (String × Json)) :
    LastTexts fields (Keyed.collect (texts (formTexts fields))) := by
  have hascending := Keyed.ascending_collect (texts (formTexts fields))
  refine ⟨hascending, fun name => ?_, fun name v => ?_⟩
  · rw [← not_iff_not, ← Keyed.lookup_eq_none_iff, Keyed.lookup_collect, last?_eq_none_iff, mem_names_formTexts]
  · rw [← last?_eq_some_iff, ← Keyed.lookup_collect]
    exact ⟨Keyed.lookup_of_mem (Keyed.nodup_of_ascending hascending), Keyed.mem_of_lookup⟩

/-! ### Replies -/

private theorem formFields?_map (fields : List (String × String)) :
    formFields? (fields.map fun f => some ⟨some f.1, some f.2⟩) = some fields := by
  induction fields with
  | nil => rfl
  | cons f rest ih =>
    rw [formFields?] at ih ⊢
    rw [List.map_cons, List.mapM_cons, ih]
    rfl

theorem upload_of_parts {μ : Type} {w : Framework μ} {a : Arrival} {fields : List (String × String)}
    (hparts : w.parts a = .ok (fields.map fun f => some ⟨some f.1, some f.2⟩)) :
    upload w a = .json 200 [] (.obj (Keyed.collect (texts fields))) := by
  rw [upload, hparts]
  simp only [formFields?_map]
  rfl

private theorem ofBytes_eq_json_iff {bs : List UInt8} {v : Json} :
    Content.ofBytes .json bs = .json v ↔ ofBytes? bs = some v := by
  unfold Content.ofBytes
  cases ofBytes? bs <;> simp

/-- Texts as members are read back exactly if the first name is not the key of embedded text. -/
theorem ofBytes_texts_iff {ms : List (String × Json)} (hascending : Keyed.Ascending ms) (hflat : Flat ms) :
    Content.ofBytes .json (Text.Utf8.encode (print (.obj ms))) = .json (.obj ms) ↔
      ∀ m ∈ ms.head?, m.1 ≠ embeddedKey := by
  obtain ⟨hmembers, hwhole, hplain, hflatDepth⟩ := hflat.simple
  have hsorted : Sorted (.obj ms) := by
    rw [Sorted]
    exact ⟨hascending, hmembers⟩
  have hdepth : depth (.obj ms) ≤ maxDepth := by
    rw [depth, hflatDepth]
    decide
  rw [ofBytes_eq_json_iff, ofBytes?_print_eq_some_iff hsorted hwhole, and_iff_right hdepth]
  cases ms with
  | nil => simp [Plain]
  | cons m rest =>
    rw [PlainMembers] at hplain
    simp [Plain, hplain]

/-! ### Calls -/

private theorem ne_embeddedKey_of_isAlphanum {name : String} (h : ∀ c ∈ name.toList, c.isAlphanum = true) :
    name ≠ embeddedKey := by
  rintro rfl
  have hdollar : '$' ∈ embeddedKey.toList := by decide +kernel
  exact absurd (h '$' hdollar) (by decide)

section
variable {μ : Type} {w : Framework μ} {address : String} (hw : w.Lawful address) {d : Descriptor}
  (hmethod : d.method = .post) (hpath : d.path = "/upload") (hheaders : d.headers = []) (hplain : d.IsPlain)
  {fields : List (String × Json)} (hform : d.form = some fields) (hfits : w.Fits (d.request (.ofAddress address)))
  (hdelivers : w.Delivers (formTexts fields)) (occasions : Nat → Occasion μ) (service : Service)
include hw hmethod hpath hheaders hplain hform hfits hdelivers

/-- The answer to an upload has for its content what the text of the collected fields is read to. -/
private theorem outcome_upload :
    ((storeTransport w occasions).call (.ofAddress address) d service).1.outcome =
      .ok ⟨d.url (.ofAddress address), true, 200, "OK",
        Content.ofBytes .json (Text.Utf8.encode (print (.obj (Keyed.collect (texts (formTexts fields))))))⟩ := by
  have hclean : Query.cleanPath d.path = pathText ["upload"] := by
    rw [hpath]
    decide +kernel
  -- Form fields take the place of the body, and of the content type that it implies.
  have hcontentType : d.contentTypeHeader = [] := by
    rw [Descriptor.contentTypeHeader, hform]
    rfl
  have hpayload : (d.request (.ofAddress address)).payload = some (.form (formTexts fields)) := by
    show d.payload = _
    rw [Descriptor.payload, hform]
  have hlist : (d.request (.ofAddress address)).headers = [("Accept", "application/json")] :=
    (requestHeaders_ofAddress hheaders).trans (congrArg _ hcontentType)
  have hsendable : Http.isSendable (d.request (.ofAddress address)).headers = true := by
    rw [hlist]
    decide +kernel
  have huntyped : (d.request (.ofAddress address)).headers.has "content-type" = false := by
    rw [hlist]
    decide +kernel
  have hnothead : d.method ≠ .head := by
    rw [hmethod]
    decide
  obtain ⟨a, harrive, hcarried, -⟩ := arrives_of_path hw.carries hclean (by simp) (by decide) hsendable hfits
    (occasions service.requests).moment
  have hparts := hdelivers _ _ a hpayload huntyped hfits harrive
  rw [(call_of_arrival harrive hcarried.method).1, handle_of_route (route_upload hcarried hw.dispatches rfl hmethod),
    serve, upload_of_parts hparts,
    replyOutcome_json hw.answers _ _ hplain.2 (messageFor?_of_plain_found hplain) hnothead]

/-- A call to `/upload` whose form fields are delivered, whatever body it has besides, has an answer with status 200.
The content of the answer is the object with the last text of every name, exactly if the least of these names is not
the key of embedded text.  No name of ASCII letters and digits is that key. -/
theorem upload_returns_last_texts :
    ∃ ms content, LastTexts fields ms ∧
      ((storeTransport w occasions).call (.ofAddress address) d service).1.outcome =
        .ok ⟨d.url (.ofAddress address), true, 200, "OK", content⟩ ∧
      (content = .json (.obj ms) ↔ ∀ m ∈ ms.head?, m.1 ≠ embeddedKey) ∧
      ((∀ f ∈ fields, ∀ c ∈ f.1.toList, c.isAlphanum = true) → content = .json (.obj ms)) := by
  have houtcome := outcome_upload hw hmethod hpath hheaders hplain hform hfits hdelivers occasions service
  have hlast := lastTexts_reported fields
  generalize Keyed.collect (texts (formTexts fields)) = ms at houtcome hlast
  have hflat : Flat ms := by
    rintro ⟨name, v⟩ hm
    obtain ⟨u, -, rfl⟩ := (hlast.values name v).1 hm
    exact .inr ⟨_, rfl⟩
  have hcontent := ofBytes_texts_iff hlast.ascending hflat
  refine ⟨ms, _, hlast, houtcome, hcontent, fun halphanum => hcontent.2 fun m hm => ?_⟩
  obtain ⟨u, hu, -⟩ := (hlast.names m.1).1 (List.mem_map_of_mem (List.mem_of_mem_head? hm))
  exact ne_embeddedKey_of_isAlphanum (halphanum (m.1, u) hu)

end

/-- Fields of which some are repeated, some are `null` and some are no strings. -/
def repeatedFields : List (String × Json) :=
  [("b", .bool true), ("a", .str "1"), ("c", .null), ("b", .arr [.str "\"\né", .null]), ("a", .null)]

/-- A call that uploads them, with a body besides. -/
def uploadCall : Descriptor :=
  (Descriptor.ofPath .post "/upload").applyAll
    (.body (.text "ignored") :: repeatedFields.map fun f => .formField f.1 f.2)

theorem upload_returns_last_texts_repeated :
    loopback.Lawful Loopback.address ∧ uploadCall.method = .post ∧ uploadCall.path = "/upload" ∧
      uploadCall.headers = [] ∧ uploadCall.IsPlain ∧ uploadCall.form = some repeatedFields ∧
      loopback.Fits (uploadCall.request (.ofAddress Loopback.address)) ∧
      loopback.Delivers (formTexts repeatedFields) ∧
      ∃ ms, ((storeTransport loopback (Loopback.occasions 0)).call (.ofAddress Loopback.address) uploadCall
          Service.start).1.outcome = .ok ⟨"http://127.0.0.1:3000/upload", true, 200, "OK", .json (.obj ms)⟩ ∧
        ("a", .str "1") ∈ ms ∧ ("b", .str "[\"\\\"\\né\",null]") ∈ ms ∧ "c" ∉ ms.map Prod.fst := by
  have hplain : uploadCall.IsPlain := ⟨rfl, rfl⟩
  have hdelivers : loopback.Delivers (formTexts repeatedFields) := loopback_delivers (by decide)
  have hfits : loopback.Fits (uploadCall.request (.ofAddress Loopback.address)) :=
    ⟨by decide +kernel, nofun, by decide +kernel⟩
  have hurl : uploadCall.url (.ofAddress Loopback.address) = "http://127.0.0.1:3000/upload" := by decide +kernel
  have hform : uploadCall.form = some repeatedFields := rfl
  have hnames : (repeatedFields.all fun f => f.1.toList.all Char.isAlphanum) = true := by decide
  obtain ⟨ms, content, hlast, houtcome, -, hcontent⟩ := upload_returns_last_texts loopback_lawful rfl rfl rfl hplain
    hform hfits hdelivers (Loopback.occasions 0) Service.start
  rw [hcontent fun f hf => List.all_eq_true.1 (List.all_eq_true.1 hnames f hf), hurl] at houtcome
  refine ⟨loopback_lawful, rfl, rfl, rfl, hplain, rfl, hfits, hdelivers, ms, houtcome, ?_, ?_, ?_⟩
  · have hlastValue : IsLastValue repeatedFields "a" (.str "1") :=
      ⟨[("b", .bool true)], [("c", .null), ("b", .arr [.str "\"\né", .null]), ("a", .null)], rfl, nofun, by decide⟩
    exact (hlast.values _ _).2 ⟨_, hlastValue, rfl⟩
  · have hlastValue : IsLastValue repeatedFields "b" (.arr [.str "\"\né", .null]) :=
      ⟨[("b", .bool true), ("a", .str "1"), ("c", .null)], [("a", .null)], rfl, nofun, by decide⟩
    exact (hlast.values _ _).2 ⟨_, hlastValue, by decide +kernel⟩
  · rw [hlast.names]
    rintro ⟨w, hw, hne⟩
    have hnull : ∀ f ∈ repeatedFields, f.1 = "c" → f.2 = .null := by decide
    exact hne (hnull _ hw rfl)

/-- A field that has the key of embedded text for its name is delivered, but its text is taken for an embedded one. -/
theorem upload_read_as_embedded :
    let d := (Descriptor.ofPath .post "/upload").apply (.formField embeddedKey (.str "1"))
    d.headers = [] ∧ d.IsPlain ∧ loopback.Fits (d.request (.ofAddress Loopback.address)) ∧
      loopback.Delivers (formTexts [(embeddedKey, .str "1")]) ∧
      ((storeTransport loopback (Loopback.occasions 0)).call (.ofAddress Loopback.address) d
          Service.start).1.outcome =
        .ok ⟨"http://127.0.0.1:3000/upload", true, 200, "OK", .json (.num (.int 1 (by decide)))⟩ := by
  refine ⟨rfl, ⟨rfl, rfl⟩, ⟨by decide +kernel, nofun, by decide +kernel⟩, loopback_delivers (by decide), ?_⟩
  decide +kernel

end ApiClient.PetStore
