import ApiClient.Descriptor.Step
import ApiClient.Execution
import ApiClient.Proofs.Json.Faithful

/-!
# A JSON body and its way back

A description with a JSON body makes a request with the text of the value and the content type of JSON.  A response
that repeats both is decoded to the value exactly when the value is plain and no more than 127 arrays and objects are
open inside each other in it; with more of them it is empty (`json_body_comes_back`).

The exception is real: an object whose least key is the key of embedded text does not come back
(`embedded_text_does_not_come_back`).
-/

namespace ApiClient.Descriptor

/-- The headers of a request whose only content is a body with some content type. -/
theorem requestHeaders_of_body {d : Descriptor} {config : Config} {contentType : String} (hheaders : d.headers = [])
    (hform : d.form = none) (hbody : d.body >>= Body.contentType? = some contentType) :
    d.requestHeaders config =
      ("Accept", "application/json") :: (config.authorization ++ [("Content-Type", contentType)]) := by
  rw [requestHeaders, contentTypeHeader, hheaders, hform, hbody]
  rfl

theorem json_body_comes_back (config : Config) (d : Descriptor) (v : Json) (hheaders : d.headers = [])
    (hform : d.form = none) (hsorted : v.Sorted) (hwhole : v.Whole) (hpresent : (Body.json v).isPresent = true) :
    ∃ t, ((d.apply (.jsonBody v)).request config).payload = some (.text t) ∧
      ((d.apply (.jsonBody v)).request config).headers =
        ("Accept", "application/json") :: (config.authorization ++ [("Content-Type", "application/json")]) ∧
      ∀ r : Http.Response, r.headers.find? "content-type" = some "application/json" → r.body = Text.Utf8.bytes t →
        (Content.ofResponse r = .json v ↔ v.depth ≤ 127 ∧ v.Plain) ∧
        (128 ≤ v.depth → Content.ofResponse r = .empty) := by
  have htype : (d.apply (.jsonBody v)).body >>= Body.contentType? = some "application/json" := by
    show Body.contentType? (.json v) = _
    rw [Body.contentType?, if_pos hpresent]
  refine ⟨v.render, ?_, requestHeaders_of_body hheaders hform htype, ?_⟩
  · show (d.apply (.jsonBody v)).payload = _
    simp only [payload, apply, hform, Option.filter, hpresent, if_true, Option.map_some, Body.payload]
  · intro r htypes hbody
    have hbytes : r.body = Text.Utf8.encode v.print := by
      rw [hbody, Text.Utf8.bytes, Json.render, String.toList_ofList]
    rw [Content.ofResponse_of_json htypes, hbytes]
    constructor
    · have hread := Json.ofBytes?_print_eq_some_iff hsorted hwhole
      rw [show (127 : Nat) = Json.maxDepth from rfl, ← hread]
      cases Json.ofBytes? (Text.Utf8.encode v.print) <;> simp
    · intro hdeep
      rw [Json.ofBytes?_print_of_deep hsorted hwhole hdeep]

/-- A value with both kinds of lists and both kinds of escapes. -/
def nestedValue : Json :=
  .obj [("a\n", .arr [.num (.int (-1) (by decide)), .str "\x01é\"", .obj []]), ("b", .arr [.arr [], .null])]

theorem nestedValue_comes_back :
    nestedValue.Sorted ∧ nestedValue.Whole ∧ (Body.json nestedValue).isPresent = true ∧
      ∃ t, (((ofPath .post "/pets").apply (.jsonBody nestedValue)).request ⟨"http://x", none⟩).payload =
          some (.text t) ∧
        Content.ofResponse ⟨200, "OK", [("Content-Type", "application/json")], Text.Utf8.bytes t⟩ =
          .json nestedValue := by
  have hsorted : nestedValue.Sorted := by
    simp only [nestedValue, Json.Sorted, Json.SortedMembers, Json.SortedItems, and_true]
    decide +kernel
  have hwhole : nestedValue.Whole := by
    simp [nestedValue, Json.Whole, Json.WholeMembers, Json.WholeItems]
  have hplain : nestedValue.Plain := by
    simp only [nestedValue, Json.Plain, Json.PlainMembers, Json.PlainItems, and_true]
    decide +kernel
  obtain ⟨t, hpayload, -, hresponse⟩ :=
    json_body_comes_back ⟨"http://x", none⟩ (ofPath .post "/pets") nestedValue rfl rfl hsorted hwhole rfl
  have htype : Http.Headers.find? [("Content-Type", "application/json")] "content-type" =
      some "application/json" := by
    decide +kernel
  have hcontent := hresponse ⟨200, "OK", [("Content-Type", "application/json")], Text.Utf8.bytes t⟩ htype rfl
  exact ⟨hsorted, hwhole, rfl, t, hpayload, hcontent.1.2 ⟨by decide, hplain⟩⟩

/-- An object with a text under the key of embedded text comes back as the value of that text. -/
theorem embedded_text_does_not_come_back :
    let v : Json := .obj [(Json.embeddedKey, .str "1")]
    v.Sorted ∧ v.Whole ∧ (Body.json v).isPresent = true ∧ v.depth ≤ 127 ∧
      (((ofPath .post "/pets").apply (.jsonBody v)).request ⟨"http://x", none⟩).payload = some (.text v.render) ∧
      Content.ofResponse ⟨200, "OK", [("Content-Type", "application/json")], Text.Utf8.bytes v.render⟩ =
        .json (.num (.int 1 (by decide))) := by
  refine ⟨?_, by simp [Json.Whole, Json.WholeMembers], rfl, by decide, rfl, by decide +kernel⟩
  simp only [Json.Sorted, Json.SortedMembers, and_true]
  exact List.pairwise_singleton _ _

end ApiClient.Descriptor
