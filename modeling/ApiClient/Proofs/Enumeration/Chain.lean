import ApiClient.Descriptor.Basic
import ApiClient.Enumeration.Overlay
import ApiClient.Query

/-!
# Chains of overlays

Schemas laid over the members of an enumeration one after the other.  Every member keeps its position and its kind,
and each other field is what the last schema of the chain says that says anything about it (`applyAll_fields`).
Names, titles and descriptions are found by counting strings (`textAt_strings?_eq_some_iff`), values by counting all
items (`valueAt_array?_eq_some_iff`).
-/

namespace ApiClient.Enumeration.Overlay

/-! ### What a schema says -/

/-- A schema has the nonempty string `t` under a key, in an array in which `i` strings come before it. -/
def GivesString (key : String) (i : Nat) (schema : Json) (t : String) : Prop :=
  ∃ before after, schema.member? key = some (.arr (before ++ .str t :: after)) ∧
    before.countP (fun v => v.asStr?.isSome) = i ∧ t ≠ ""

/-- A schema has a truthy value at position `i` of its values, and `t` is the text of it. -/
def GivesValue (i : Nat) (schema : Json) (t : String) : Prop :=
  ∃ items v, schema.member? "x-enum-values" = some (.arr items) ∧ items[i]? = some v ∧ Body.isTruthy v = true ∧
    Query.valueText v = t

/-- Of the schemas that give a text, the last one gives `t`. -/
def LastGives (gives : Json → String → Prop) (schemas : List Json) (t : String) : Prop :=
  ∃ before schema after, schemas = before ++ schema :: after ∧ gives schema t ∧ ∀ s ∈ after, ∀ u, ¬gives s u

/-- A field is made of the text that the last schema gives, and is the member's own if no schema gives one. -/
def Overlaid {α : Type} (gives : Json → String → Prop) (schemas : List Json) (ofText : String → α) (own new : α) :
    Prop :=
  (∀ t, LastGives gives schemas t → new = ofText t) ∧ ((∀ s ∈ schemas, ∀ t, ¬gives s t) → new = own)

theorem array?_eq_some_iff {schema : Json} {key : String} {items : List Json} :
    array? schema key = some items ↔ schema.member? key = some (.arr items) := by
  rw [array?, Option.bind_eq_bind, Option.bind_eq_some_iff]
  constructor
  · rintro ⟨v, hv, hitems⟩
    cases v with
    | arr items' =>
      cases hitems
      exact hv
    | _ => cases hitems
  · intro h
    exact ⟨_, h, rfl⟩

/-- The entry at position `i` of what `f` keeps has `i` kept entries before it. -/
theorem getElem?_filterMap_eq_some_iff {α β : Type} {f : α → Option β} {xs : List α} {i : Nat} {b : β} :
    (xs.filterMap f)[i]? = some b ↔
      ∃ before x after, xs = before ++ x :: after ∧ f x = some b ∧ before.countP (fun y => (f y).isSome) = i := by
  induction xs generalizing i with
  | nil => simp
  | cons y ys ih =>
    constructor
    · intro h
      cases hy : f y with
      | none =>
        rw [List.filterMap_cons_none hy] at h
        obtain ⟨before, x, after, rfl, hx, hcount⟩ := ih.1 h
        exact ⟨y :: before, x, after, rfl, hx, by simp [hy, hcount]⟩
      | some c =>
        rw [List.filterMap_cons_some hy] at h
        cases i with
        | zero =>
          obtain rfl : c = b := by simpa using h
          exact ⟨[], y, ys, rfl, hy, rfl⟩
        | succ i =>
          rw [List.getElem?_cons_succ] at h
          obtain ⟨before, x, after, rfl, hx, hcount⟩ := ih.1 h
          exact ⟨y :: before, x, after, rfl, hx, by simp [hy, hcount]⟩
    · rintro ⟨before, x, after, heq, hx, hcount⟩
      cases before with
      | nil =>
        obtain ⟨rfl, rfl⟩ := List.cons.inj heq
        obtain rfl : 0 = i := hcount
        simp [List.filterMap_cons_some hx]
      | cons z before =>
        obtain ⟨rfl, rfl⟩ := List.cons.inj heq
        have hrest := fun j h => (ih (i := j)).2 ⟨before, x, after, rfl, hx, h⟩
        cases hy : f y with
        | none =>
          rw [List.filterMap_cons_none hy]
          exact hrest i (by simpa [hy] using hcount)
        | some c =>
          obtain ⟨j, rfl⟩ : ∃ j, i = j + 1 := ⟨i - 1, by simp [hy] at hcount; omega⟩
          rw [List.filterMap_cons_some hy, List.getElem?_cons_succ]
          exact hrest j (by simpa [hy] using hcount)

theorem textAt_strings?_eq_some_iff {schema : Json} {key : String} {i : Nat} {t : String} :
    textAt (strings? schema key) i = some t ↔ GivesString key i schema t := by
  rw [textAt, Option.filter_eq_some_iff, Option.bind_eq_bind, Option.bind_eq_some_iff]
  have hstr : ∀ v : Json, v.asStr? = some t ↔ v = .str t := by
    intro v
    cases v <;> simp [Json.asStr?]
  constructor
  · rintro ⟨⟨texts, htexts, ht⟩, hempty⟩
    obtain ⟨items, hitems, rfl⟩ := Option.map_eq_some_iff.1 htexts
    obtain ⟨before, v, after, rfl, hv, hcount⟩ := getElem?_filterMap_eq_some_iff.1 ht
    obtain rfl := (hstr v).1 hv
    exact ⟨before, after, array?_eq_some_iff.1 hitems, hcount, by simpa using hempty⟩
  · rintro ⟨before, after, harray, hcount, hne⟩
    refine ⟨⟨_, Option.map_eq_some_iff.2 ⟨_, array?_eq_some_iff.2 harray, rfl⟩, ?_⟩, by simpa using hne⟩
    exact getElem?_filterMap_eq_some_iff.2 ⟨before, _, after, rfl, rfl, hcount⟩

/-- A value takes the place of a member's own exactly when it would count as a body, and as the text that it would be
as a parameter. -/
theorem replacement?_eq_some_iff {v : Json} {t : String} :
    replacement? v = some t ↔ Body.isTruthy v = true ∧ Query.valueText v = t := by
  cases v with
  | null => simp [replacement?, Body.isTruthy]
  | bool b =>
    cases b with
    | false => simp [replacement?, Body.isTruthy]
    | true => simp [replacement?, Body.isTruthy, Query.valueText, Json.render, Json.print]
  | num n => by_cases h : n.isZero <;> simp [replacement?, Body.isTruthy, Query.valueText, h]
  | str s => by_cases h : s = "" <;> simp [replacement?, Body.isTruthy, Query.valueText, h]
  | arr items => simp [replacement?, Body.isTruthy, Query.valueText]
  | obj members => simp [replacement?, Body.isTruthy, Query.valueText]

theorem valueAt_array?_eq_some_iff {schema : Json} {i : Nat} {t : String} :
    valueAt (array? schema "x-enum-values") i = some t ↔ GivesValue i schema t := by
  simp only [valueAt, Option.bind_eq_bind, Option.bind_eq_some_iff, array?_eq_some_iff, replacement?_eq_some_iff]
  constructor
  · rintro ⟨v, ⟨items, hitems, hv⟩, htruthy, ht⟩
    exact ⟨items, v, hitems, hv, htruthy, ht⟩
  · rintro ⟨items, v, hitems, hv, htruthy, ht⟩
    exact ⟨v, ⟨items, hitems, hv⟩, htruthy, ht⟩

/-! ### One field along a chain -/

section
variable {α : Type} {gives : Json → String → Prop} {pick : Json → Option String} {ofText : String → α}

private theorem foldl_pick (schemas : List Json) (own : α) :
    schemas.foldl (fun x s => ((pick s).map ofText).getD x) own =
      ((schemas.reverse.findSome? pick).map ofText).getD own := by
  induction schemas generalizing own with
  | nil => rfl
  | cons s rest ih =>
    rw [List.foldl_cons, ih, List.reverse_cons, List.findSome?_append]
    cases rest.reverse.findSome? pick with
    | some t => rfl
    | none => cases hs : pick s <;> simp [hs]

private theorem lastGives_iff (hpick : ∀ s t, pick s = some t ↔ gives s t) {schemas : List Json} {t : String} :
    LastGives gives schemas t ↔ schemas.reverse.findSome? pick = some t := by
  have hnone : ∀ s, (∀ u, ¬gives s u) ↔ pick s = none := by
    intro s
    rw [Option.eq_none_iff_forall_ne_some]
    exact forall_congr' fun u => not_congr (hpick s u).symm
  rw [List.findSome?_eq_some_iff]
  constructor
  · rintro ⟨before, s, after, rfl, hs, hafter⟩
    refine ⟨after.reverse, s, before.reverse, by simp, (hpick s t).2 hs, fun x hx => ?_⟩
    exact (hnone x).1 (hafter x (List.mem_reverse.1 hx))
  · rintro ⟨after, s, before, heq, hs, hafter⟩
    refine ⟨before.reverse, s, after.reverse, ?_, (hpick s t).1 hs, fun x hx => ?_⟩
    · rw [← List.reverse_reverse schemas, heq]
      simp
    · exact (hnone x).2 (hafter x (List.mem_reverse.1 hx))

/-- A field that each schema either replaces or keeps is overlaid by a chain of them. -/
theorem overlaid_foldl (field : Member → α) (hpick : ∀ s t, pick s = some t ↔ gives s t) {i : Nat}
    (hfield : ∀ m s, field ((ofSchema s).applyAt i m) = ((pick s).map ofText).getD (field m)) (schemas : List Json)
    (m : Member) :
    Overlaid gives schemas ofText (field m) (field (schemas.foldl (fun m s => (ofSchema s).applyAt i m) m)) := by
  have hfold : field (schemas.foldl (fun m s => (ofSchema s).applyAt i m) m) =
      ((schemas.reverse.findSome? pick).map ofText).getD (field m) := by
    rw [← foldl_pick]
    exact (List.foldl_hom field fun m s => (hfield m s).symm).symm
  rw [hfold]
  constructor
  · intro t ht
    rw [(lastGives_iff hpick).1 ht]
    rfl
  · intro hnone
    have hfind : schemas.reverse.findSome? pick = none := by
      rw [List.findSome?_eq_none_iff]
      intro s hs
      rw [Option.eq_none_iff_forall_ne_some]
      exact fun t ht => hnone s (List.mem_reverse.1 hs) t ((hpick s t).1 ht)
    rw [hfind]
    rfl

end

/-! ### Chains -/

theorem length_applyAll (members : List Member) (schemas : List Json) :
    (applyAll members schemas).length = members.length := by
  induction schemas generalizing members with
  | nil => rfl
  | cons schema rest ih => exact (ih _).trans (length_apply _ _)

/-- What becomes of a member depends on its position and on itself only. -/
theorem getElem?_applyAll (members : List Member) (schemas : List Json) (i : Nat) :
    (applyAll members schemas)[i]? =
      members[i]?.map fun m => schemas.foldl (fun m s => (ofSchema s).applyAt i m) m := by
  induction schemas generalizing members with
  | nil => simp [applyAll]
  | cons schema rest ih =>
    have hstep : ((ofSchema schema).apply members)[i]? = members[i]?.map ((ofSchema schema).applyAt i) := by
      rw [apply, List.getElem?_mapIdx]
    have hrest := ih ((ofSchema schema).apply members)
    rw [hstep, Option.map_map] at hrest
    exact hrest

private theorem kind_foldl (schemas : List Json) (i : Nat) (m : Member) :
    (schemas.foldl (fun m s => (ofSchema s).applyAt i m) m).kind = m.kind := by
  induction schemas generalizing m with
  | nil => rfl
  | cons s rest ih => exact ih _

/-- A chain of schemas leaves a member in its place with its kind, and overlays each of its other fields. -/
theorem applyAll_fields (members : List Member) (schemas : List Json) :
    (applyAll members schemas).length = members.length ∧
    ∀ i own, members[i]? = some own → ∃ new, (applyAll members schemas)[i]? = some new ∧
      new.kind = own.kind ∧
      Overlaid (GivesString "x-enum-varnames" i) schemas id own.name new.name ∧
      Overlaid (GivesString "x-enum-titles" i) schemas some own.title new.title ∧
      Overlaid (GivesString "x-enum-descriptions" i) schemas some own.description new.description ∧
      Overlaid (GivesValue i) schemas id own.value new.value := by
  refine ⟨length_applyAll members schemas, fun i own hown => ?_⟩
  refine ⟨schemas.foldl (fun m s => (ofSchema s).applyAt i m) own, ?_, ?_, ?_, ?_, ?_, ?_⟩
  · rw [getElem?_applyAll, hown, Option.map_some]
  · exact kind_foldl schemas i own
  · refine overlaid_foldl Member.name (fun _ _ => textAt_strings?_eq_some_iff) (fun m s => ?_) schemas own
    rw [Option.map_id]
    rfl
  · refine overlaid_foldl Member.title (fun _ _ => textAt_strings?_eq_some_iff) (fun m s => ?_) schemas own
    show (textAt (strings? s _) i).or m.title = _
    cases textAt (strings? s "x-enum-titles") i <;> rfl
  · refine overlaid_foldl Member.description (fun _ _ => textAt_strings?_eq_some_iff) (fun m s => ?_)
      schemas own
    show (textAt (strings? s _) i).or m.description = _
    cases textAt (strings? s "x-enum-descriptions") i <;> rfl
  · refine overlaid_foldl Member.value (fun _ _ => valueAt_array?_eq_some_iff) (fun m s => ?_) schemas own
    rw [Option.map_id]
    rfl

/-- Names with an item that is no string and an empty one, and values with two that count as none. -/
def gappedSchema : Json :=
  .obj [("x-enum-values", .arr [.null, .str "", .num (.int 10 (by decide))]),
    ("x-enum-varnames", .arr [.str "X", .bool true, .str "", .str "Z"])]

/-- A schema with fewer names than there are members. -/
def shortSchema : Json := .obj [("x-enum-varnames", .arr [.str "Y"])]

theorem applyAll_fields_gapped :
    let members : List Member :=
      [⟨"A", none, "1", none, .number⟩, ⟨"B", none, "2", none, .number⟩, ⟨"C", none, "3", none, .number⟩]
    members[2]? = some ⟨"C", none, "3", none, .number⟩ ∧
      ∃ new, (applyAll members [gappedSchema, shortSchema])[2]? = some new ∧ new.name = "Z" ∧ new.value = "10" ∧
        new.title = none := by
  intro members
  have hown : members[2]? = some ⟨"C", none, "3", none, .number⟩ := rfl
  obtain ⟨new, hnew, -, hname, htitle, -, hvalue⟩ :=
    (applyAll_fields members [gappedSchema, shortSchema]).2 2 _ hown
  have hnamed : LastGives (GivesString "x-enum-varnames" 2) [gappedSchema, shortSchema] "Z" := by
    rw [lastGives_iff fun _ _ => textAt_strings?_eq_some_iff]
    decide +kernel
  have hvalued : LastGives (GivesValue 2) [gappedSchema, shortSchema] "10" := by
    rw [lastGives_iff fun _ _ => valueAt_array?_eq_some_iff]
    decide +kernel
  have htitled : ∀ s ∈ [gappedSchema, shortSchema], textAt (strings? s "x-enum-titles") 2 = none := by decide +kernel
  refine ⟨hown, new, hnew, hname.1 _ hnamed, hvalue.1 _ hvalued, htitle.2 fun s hs t ht => ?_⟩
  rw [← textAt_strings?_eq_some_iff, htitled s hs] at ht
  cases ht

end ApiClient.Enumeration.Overlay
