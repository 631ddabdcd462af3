import ApiClient.Assembly
import ApiClient.Descriptor.Step
import ApiClient.Proofs.Json.Faithful
import ApiClient.Proofs.Query

/-!
# Arrays and objects as parameters

An array or an object that is sent as one pair of a query string or as one form field is recovered from the text in
its place, exactly if it is plain (`structured_values_recovered`).  In a query string the pairs of a parameter stand
where the parameters before it end, one pair for each value that it carries (`getElem?_flatten`); a form field stands
behind those before it that are not `null` (`getElem?_formTexts`).

The exception is real: an object whose least key is the key of embedded text is not recovered
(`embedded_text_not_recovered`).
-/

namespace ApiClient

open Text

/-- Arrays and objects. -/
def Json.IsContainer : Json → Prop
  | .arr _ | .obj _ => True
  | _ => False

namespace Query

/-- The values that a parameter carries, one for each of its pairs: the items of an array, nothing for `null`, and
otherwise the value itself. -/
def carried : Json → List Json
  | .null => []
  | .arr items => items
  | v => [v]

/-- How many pairs some parameters come to. -/
def pairCount (params : List (String × Json)) : Nat := (params.flatMap fun p => carried p.2).length

/-- The pairs in a query string: none in an empty one, and otherwise those behind the `?`. -/
def pairsOf? (s : String) : Option (List (String × String)) :=
  match s.toList with
  | [] => some []
  | '?' :: body => decode? Percent.decode? body
  | _ => none

/-! ### Texts of containers -/

/-- A container is read back from its text as a parameter exactly if it is plain. -/
theorem parse?_valueText_eq_some_iff {v : Json} (hv : v.IsContainer) (hsorted : v.Sorted) (hwhole : v.Whole)
    (hdepth : v.depth ≤ 127) : Json.parse? (valueText v) = some v ↔ v.Plain := by
  have htext : valueText v = v.render := by
    cases v with
    | arr | obj => rfl
    | _ => cases hv
  have hread := Json.ofBytes?_print_eq_some_iff hsorted hwhole
  rw [Json.ofBytes?_encode] at hread
  rw [htext, Json.parse?, Json.render, String.toList_ofList, hread]
  exact and_iff_right hdepth

/-! ### Pairs of a query string -/

theorem flattenParam_eq (key : String) (value : Json) :
    flattenParam key value = (carried value).map fun v => (key, valueText v) := by
  cases value <;> rfl

theorem length_flatten (params : List (String × Json)) : (flatten params).length = pairCount params := by
  rw [flatten, pairCount, List.length_flatMap, List.length_flatMap]
  simp only [flattenParam_eq, List.length_map]

/-- The pairs of a parameter begin where those of the parameters before it end. -/
theorem getElem?_flatten (before : List (String × Json)) (key : String) {value : Json} (after : List (String × Json))
    {i : Nat} {v : Json} (h : (carried value)[i]? = some v) :
    (flatten (before ++ (key, value) :: after))[pairCount before + i]? = some (key, valueText v) := by
  obtain ⟨hi, -⟩ := List.getElem?_eq_some_iff.1 h
  have hsplit : flatten (before ++ (key, value) :: after) =
      flatten before ++ (flattenParam key value ++ flatten after) := by
    rw [flatten, List.flatMap_append, List.flatMap_cons]
    rfl
  rw [hsplit, ← length_flatten, List.getElem?_append_right (Nat.le_add_right _ _), Nat.add_sub_cancel_left,
    flattenParam_eq, List.getElem?_append_left (by rwa [List.length_map]), List.getElem?_map, h]
  rfl

theorem pairsOf?_text (params : List (String × Json)) : pairsOf? (text params) = some (flatten params) := by
  rw [pairsOf?, toList_text, ofPairs]
  cases hflatten : flatten params with
  | nil => rfl
  | cons pair rest => exact decode?_joinPairs (Percent.decode?_encode (by decide)) (by simp)

end Query

/-! ### Form fields -/

namespace Descriptor

/-- How many fields of a form are sent. -/
def sentCount (fields : List (String × Json)) : Nat := fields.countP fun f => decide (f.2 ≠ .null)

theorem formTexts_cons (f : String × Json) (rest : List (String × Json)) :
    formTexts (f :: rest) = if f.2 = .null then formTexts rest else (f.1, Query.valueText f.2) :: formTexts rest := by
  obtain ⟨key, value⟩ := f
  cases value <;> simp [formTexts]

theorem length_formTexts (fields : List (String × Json)) : (formTexts fields).length = sentCount fields := by
  induction fields with
  | nil => rfl
  | cons f rest ih =>
    rw [formTexts_cons, sentCount, List.countP_cons, ← sentCount, ← ih]
    split <;> simp_all

/-- A field that is not `null` stands behind those before it that are not. -/
theorem getElem?_formTexts (before : List (String × Json)) (key : String) {value : Json} (hvalue : value ≠ .null)
    (after : List (String × Json)) :
    (formTexts (before ++ (key, value) :: after))[sentCount before]? = some (key, Query.valueText value) := by
  have hsplit : formTexts (before ++ (key, value) :: after) =
      formTexts before ++ formTexts ((key, value) :: after) := List.filterMap_append
  rw [hsplit, formTexts_cons, if_neg hvalue, ← length_formTexts, List.getElem?_append_right (Nat.le_refl _),
    Nat.sub_self, List.getElem?_cons_zero]

end Descriptor

/-! ### Both -/

open Query (carried pairCount pairsOf?)
open Descriptor (sentCount)

/-- In the pairs of a query string each value that a parameter carries has its own place, and so has each form field
that is not `null`; an array or object there is read back from the text exactly if it is plain. -/
theorem structured_values_recovered (config : Config) (d : Descriptor) :
    (∃ pairs, pairsOf? (Query.text d.query) = some pairs ∧ pairs.length = pairCount d.query ∧
      ∀ before key value after, d.query = before ++ (key, value) :: after → ∀ i v, (carried value)[i]? = some v →
        ∃ t, pairs[pairCount before + i]? = some (key, t) ∧
          (v.IsContainer → v.Sorted → v.Whole → v.depth ≤ 127 → (Json.parse? t = some v ↔ v.Plain))) ∧
    ∀ fields, d.form = some fields → ∃ texts, (d.request config).payload = some (.form texts) ∧
      texts.length = sentCount fields ∧
      ∀ before key value after, fields = before ++ (key, value) :: after → value.IsContainer →
        ∃ t, texts[sentCount before]? = some (key, t) ∧
          (value.Sorted → value.Whole → value.depth ≤ 127 → (Json.parse? t = some value ↔ value.Plain)) := by
  constructor
  · refine ⟨Query.flatten d.query, Query.pairsOf?_text d.query, Query.length_flatten d.query, ?_⟩
    intro before key value after hquery i v hv
    rw [hquery]
    exact ⟨Query.valueText v, Query.getElem?_flatten before key after hv, Query.parse?_valueText_eq_some_iff⟩
  · intro fields hform
    refine ⟨Descriptor.formTexts fields, ?_, Descriptor.length_formTexts fields, ?_⟩
    · show d.payload = _
      rw [Descriptor.payload, hform]
    · rintro before key value after rfl hvalue
      have hne : value ≠ .null := by
        rintro rfl
        exact hvalue
      exact ⟨Query.valueText value, Descriptor.getElem?_formTexts before key hne after,
        Query.parse?_valueText_eq_some_iff hvalue⟩

/-- An object with separators and escapes in its texts. -/
def separatedValue : Json := .obj [("a&b", .arr [.str "=\"%é", .null])]

/-- A call that sends the object in an array, as a parameter and as a form field, each behind a `null`. -/
def separatedCall : Descriptor :=
  (Descriptor.ofPath .post "/upload").applyAll
    [.query "n" .null, .query "q" (.arr [.null, separatedValue]), .formField "n" .null,
      .formField "f" (.arr [separatedValue])]

theorem structured_values_recovered_separators :
    separatedValue.IsContainer ∧ separatedValue.Sorted ∧ separatedValue.Whole ∧ separatedValue.depth ≤ 127 ∧
      (∃ pairs t, pairsOf? (Query.text separatedCall.query) = some pairs ∧ pairs[1]? = some ("q", t) ∧
        Json.parse? t = some separatedValue) ∧
      ∃ texts t, (separatedCall.request ⟨"http://x", none⟩).payload = some (.form texts) ∧ texts[0]? = some ("f", t) ∧
        Json.parse? t = some (.arr [separatedValue]) := by
  have hsorted : separatedValue.Sorted := by
    simp only [separatedValue, Json.Sorted, Json.SortedMembers, Json.SortedItems, and_true]
    exact List.pairwise_singleton _ _
  have hwhole : separatedValue.Whole := by
    simp [separatedValue, Json.Whole, Json.WholeMembers, Json.WholeItems]
  have hplain : separatedValue.Plain := by
    simp only [separatedValue, Json.Plain, Json.PlainMembers, Json.PlainItems, and_true]
    decide
  obtain ⟨⟨pairs, hpairs, -, hquery⟩, hform⟩ := structured_values_recovered ⟨"http://x", none⟩ separatedCall
  obtain ⟨t, ht, hread⟩ := hquery [("n", .null)] "q" _ [] rfl 1 separatedValue rfl
  obtain ⟨texts, htexts, -, hfield⟩ := hform _ rfl
  obtain ⟨u, hu, hread'⟩ := hfield [("n", .null)] "f" (.arr [separatedValue]) [] rfl trivial
  refine ⟨trivial, hsorted, hwhole, by decide, ⟨pairs, t, hpairs, ht, ?_⟩, texts, u, htexts, hu, ?_⟩
  · exact (hread trivial hsorted hwhole (by decide)).2 hplain
  · exact (hread' ⟨hsorted, trivial⟩ ⟨hwhole, trivial⟩ (by decide)).2 ⟨hplain, trivial⟩

/-- An object in which a text stands under the key of embedded text, and something else besides, is sent as one pair
and cannot be read. -/
theorem embedded_text_not_recovered :
    let v : Json := .obj [(Json.embeddedKey, .str "1"), ("a", .null)]
    v.IsContainer ∧ v.Sorted ∧ v.Whole ∧ v.depth ≤ 127 ∧
      ∃ t, pairsOf? (Query.text [("q", v)]) = some [("q", t)] ∧ Json.parse? t = none := by
  refine ⟨trivial, ?_, by simp [Json.Whole, Json.WholeMembers], by decide, _, Query.pairsOf?_text _,
    by decide +kernel⟩
  simp only [Json.Sorted, Json.SortedMembers, and_true]
  decide +kernel

end ApiClient
