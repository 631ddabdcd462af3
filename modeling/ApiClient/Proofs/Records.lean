import ApiClient.Answer
import ApiClient.Config
import ApiClient.Enumeration.Member
import ApiClient.Proofs.PetStore.EchoText
import ApiClient.Proofs.PetStore.Pet

/-!
# Records survive being written

A record is written as a text, which is read as a record again or, as the body of a response, as a value from which an
answer is read (`Survives`).  Configurations, members of enumerations and pets survive both ways.  An echo may be
written with its headers in any order; it is always read as a record, and read from a response unless the header that
comes first has the key of embedded text for its name (`records_survive`).
-/

namespace ApiClient

open Json

/-! ### From text and from responses -/

/-- The response declares JSON, and its body is the text of a value. -/
structure Http.Response.Carries (r : Http.Response) (v : Json) : Prop where
  contentType : r.headers.find? "content-type" = some "application/json"
  body : r.body = Text.Utf8.bytes v.render

/-- A response that succeeds with the text of a value. -/
def responseOf (v : Json) : Http.Response :=
  ⟨200, "OK", [("Content-Type", "application/json")], Text.Utf8.bytes v.render⟩

theorem carries_responseOf (v : Json) : (responseOf v).Carries v := by
  refine ⟨?_, rfl⟩
  show Http.Headers.find? [("Content-Type", "application/json")] "content-type" = _
  decide +kernel

section
variable {α : Type} [JsonRecord α] {x : α}

/-- The response is decoded to JSON, and an answer with this content is read as `x`. -/
def Http.Response.Yields (r : Http.Response) (x : α) : Prop :=
  ∃ v, Content.ofResponse r = .json v ∧ ∀ a : Answer, a.content = .json v → a.read α = some x

/-- A record is read from its text as it was, both as a record and from a response. -/
structure Survives (x : α) : Prop where
  parsed : JsonRecord.parse? (JsonRecord.written x).render = some x
  yielded : ∀ r : Http.Response, r.Carries (JsonRecord.written x) → r.Yields x

theorem Http.Response.Carries.yields_iff {r : Http.Response} {v : Json} (h : r.Carries v) :
    r.Yields x ↔ ∃ w, ofBytes? (Text.Utf8.encode v.print) = some w ∧ JsonModel.ofJson? w = some x := by
  have hbytes : r.body = Text.Utf8.encode v.print := by
    rw [h.body, Text.Utf8.bytes, render, String.toList_ofList]
  rw [Http.Response.Yields, Content.ofResponse_of_json h.contentType, hbytes]
  constructor
  · rintro ⟨w, hcontent, hread⟩
    cases hw : ofBytes? (Text.Utf8.encode v.print) with
    | none =>
      rw [hw] at hcontent
      cases hcontent
    | some u =>
      rw [hw] at hcontent
      cases hcontent
      exact ⟨w, rfl, hread ⟨"", true, 200, "OK", .json w⟩ rfl⟩
  · rintro ⟨w, hw, hx⟩
    rw [hw]
    refine ⟨w, rfl, fun a ha => ?_⟩
    rw [Answer.read, ha]
    exact hx

theorem survives_of_flat (hfits : FitsFields (JsonRecord.fields α) (JsonRecord.members x))
    (hflat : Flat (JsonRecord.members x)) (hfirst : ∀ m ∈ (JsonRecord.members x).head?, m.1 ≠ embeddedKey)
    (hx : JsonRecord.ofJson? (JsonRecord.written x) = some x) : Survives x where
  parsed := JsonRecord.parse?_written hfits hflat hx
  yielded _ hr := hr.yields_iff.2 (JsonRecord.ofBytes?_written hfits hflat hx hfirst)

end

/-! ### Configurations -/

/-- A configuration as an object, which has no member for a token that is not there. -/
def Config.form : Config → Json
  | ⟨url, none⟩ => .obj [("base_url", .str url)]
  | ⟨url, some token⟩ => .obj [("base_url", .str url), ("token", .str token)]

theorem Config.written_eq (c : Config) : JsonRecord.written c = c.form := by
  obtain ⟨url, token⟩ := c
  cases token <;> rfl

theorem Config.survives (c : Config) : Survives c := by
  rcases c with ⟨url, _ | token⟩
  all_goals
    refine survives_of_flat ⟨by decide, ?_, ?_⟩ ?_ ?_ ?_
    · simp [JsonRecord.members]
    · simp [JsonRecord.members, JsonRecord.fields]
    · simp [Flat, JsonRecord.members]
    · simp [JsonRecord.members, embeddedKey]
    · simp [JsonRecord.ofJson?, JsonRecord.written, JsonRecord.members, JsonRecord.fields, JsonRecord.ofFields?,
        record?, Keyed.lookup, Shape.ofJson?, Shape.missing, JsonModel.ofJson?, asStr?]

/-! ### Members of enumerations -/

/-- A text, or `null` if there is none. -/
def orNull : Option String → Json
  | none => .null
  | some s => .str s

/-- A member as an object, which has `null` for a text that is not there. -/
def Enumeration.Member.form (m : Enumeration.Member) : Json :=
  .obj [("name", .str m.name), ("description", orNull m.description), ("value", .str m.value),
    ("title", orNull m.title), ("type", .str (match m.kind with | .string => "string" | .number => "number"))]

theorem Enumeration.Member.written_eq (m : Enumeration.Member) : JsonRecord.written m = m.form := by
  rcases m with ⟨name, _ | description, value, _ | title, _ | _⟩ <;> rfl

theorem Enumeration.Member.record?_written (m : Enumeration.Member) :
    record? (JsonRecord.fields Enumeration.Member) (JsonRecord.written m) =
      some [.str m.name, JsonModel.toJson m.description, .str m.value, JsonModel.toJson m.title,
        .str m.kind.word] := by
  have htext : ∀ s, (Shape.text fun _ => true).ofJson? (.str s) = some (.str s) := fun _ => rfl
  have hkind : Enumeration.Kind.shape.ofJson? (.str m.kind.word) = some (.str m.kind.word) := by
    cases m.kind <;> rfl
  simp [record?, JsonRecord.written, JsonRecord.members, JsonRecord.fields, Keyed.lookup, htext, hkind,
    Shape.ofJson?_optionalText]

theorem Enumeration.Member.survives (m : Enumeration.Member) : Survives m := by
  refine survives_of_flat ⟨by decide, ?_, ?_⟩ ?_ ?_ ?_
  · show ["name", "description", "value", "title", "type"].Nodup
    decide
  · simp [JsonRecord.members, JsonRecord.fields]
  · simp [Flat, JsonRecord.members, toJson_text]
  · simp [JsonRecord.members, embeddedKey]
  · rw [JsonRecord.ofJson?, m.record?_written]
    simp [JsonRecord.ofFields?, ofJson?_text, Enumeration.Kind.ofWord?_word]

/-! ### Pets -/

/-- A pet as an object, its identifier given as text.  It has no member for a tag that is not there. -/
def PetStore.Pet.form (id : String) : PetStore.Pet → Json
  | ⟨_, name, none⟩ => .obj [("id", .str id), ("name", .str name)]
  | ⟨_, name, some tag⟩ => .obj [("id", .str id), ("name", .str name), ("tag", .str tag)]

theorem PetStore.Pet.written_eq (p : PetStore.Pet) : JsonRecord.written p = p.form p.id.toString := by
  rcases p with ⟨id, name, _ | tag⟩ <;> rfl

theorem PetStore.Pet.survives (p : PetStore.Pet) : Survives p := by
  have hread : JsonRecord.ofJson? (JsonRecord.written p) = some p := by
    rw [← PetStore.toJson_eq_written]
    exact PetStore.ofJson?_toJson p
  rcases p with ⟨id, name, _ | tag⟩
  all_goals
    refine survives_of_flat ⟨by decide, ?_, ?_⟩ ?_ ?_ hread
    · simp [JsonRecord.members, PetStore.memberIfSome]
    · simp [JsonRecord.members, PetStore.memberIfSome, JsonRecord.fields]
    · simp [Flat, JsonRecord.members, PetStore.memberIfSome]
    · simp [JsonRecord.members, embeddedKey]

/-! ### All records -/

/-- Each record is written in its form and survives, an echo with its headers in any order unless the first of them
has the key of embedded text for its name. -/
theorem records_survive :
    (∀ c : Config, JsonRecord.written c = c.form ∧ Survives c) ∧
    (∀ m : Enumeration.Member, JsonRecord.written m = m.form ∧ Survives m) ∧
    (∀ p : PetStore.Pet, (∃ id, p.id.IsCanonical id ∧ JsonRecord.written p = p.form id) ∧ Survives p) ∧
    ∀ e : PetStore.Echo, JsonRecord.written e = e.writtenIn e.headers.entries ∧
      ∀ order : List (String × String), order.Perm e.headers.entries →
        JsonRecord.parse? (e.writtenIn order).render = some e ∧
        ∀ r : Http.Response, r.Carries (e.writtenIn order) → (r.Yields e ↔ ∀ h ∈ order.head?, h.1 ≠ embeddedKey) := by
  refine ⟨fun c => ⟨c.written_eq, c.survives⟩, fun m => ⟨m.written_eq, m.survives⟩, fun p => ⟨?_, p.survives⟩,
    fun e => ⟨e.written_eq, fun order horder => ⟨?_, fun r hr => ?_⟩⟩⟩
  · exact ⟨p.id.toString, PetStore.Uuid.isCanonical_toString p.id, p.written_eq⟩
  · exact PetStore.Echo.parse?_writtenIn horder
  · rw [hr.yields_iff]
    exact PetStore.Echo.ofBytes?_writtenIn_iff horder

/-- An echo that has a header with the key of embedded text for its name. -/
def markedEcho : PetStore.Echo :=
  ⟨"PUT", some "", ⟨[(embeddedKey, "1"), ("accept", "\"*/*\"\n")], by decide +kernel⟩, "é"⟩

theorem records_survive_reversed :
    let order := markedEcho.headers.entries.reverse
    let text := markedEcho.writtenIn order
    order.Perm markedEcho.headers.entries ∧ (responseOf text).Carries text ∧
      JsonRecord.parse? text.render = some markedEcho ∧ (responseOf text).Yields markedEcho := by
  intro order text
  have horder : order.Perm markedEcho.headers.entries := List.reverse_perm _
  obtain ⟨hparsed, hyields⟩ := (records_survive.2.2.2 markedEcho).2 order horder
  have hcarries : (responseOf text).Carries text := carries_responseOf text
  have hfirst : ∀ h ∈ order.head?, h.1 ≠ embeddedKey := by decide
  exact ⟨horder, hcarries, hparsed, (hyields (responseOf text) hcarries).2 hfirst⟩

/-- An echo whose only header has the key of embedded text for its name is not read from a response. -/
theorem marked_echo_lost :
    let e : PetStore.Echo := ⟨"GET", none, ⟨[(embeddedKey, "1")], List.pairwise_singleton _ _⟩, ""⟩
    let r := responseOf (JsonRecord.written e)
    r.Carries (JsonRecord.written e) ∧
      Content.ofResponse r = .json (.obj [("body", .str ""), ("headers", .num (.int 1 (by decide))),
        ("method", .str "GET"), ("query", .null)]) ∧ ¬r.Yields e := by
  intro e r
  have hcontent : Content.ofResponse r = .json (.obj [("body", .str ""), ("headers", .num (.int 1 (by decide))),
      ("method", .str "GET"), ("query", .null)]) := by decide +kernel
  refine ⟨carries_responseOf _, hcontent, ?_⟩
  rintro ⟨v, hv, hread⟩
  rw [hcontent] at hv
  cases hv
  have hlost := hread ⟨"", true, 200, "OK", _⟩ rfl
  revert hlost
  decide +kernel

end ApiClient
