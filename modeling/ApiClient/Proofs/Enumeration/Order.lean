import ApiClient.Proofs.Enumeration.Chain

/-!
# The order of two overlays

Two overlays may be laid over the members of any enumeration in either order exactly when they agree: wherever both
have an entry that overrides the same field, the two entries come to the same text.  Where they do not agree the one
that comes last wins, so that an earlier application of it makes no difference (`apply_order`).

What becomes of a member depends on its position, so two overlays exchange on all enumerations if they do at every
position (`apply_comm_iff`), and there field by field (`applyAt_comm_iff`).
-/

namespace ApiClient.Enumeration.Overlay

/-! ### Entries that override -/

/-- There is a nonempty text `t` at position `i`. -/
def OverridesText (items : Option (List String)) (i : Nat) (t : String) : Prop :=
  ∃ texts, items = some texts ∧ texts[i]? = some t ∧ t ≠ ""

/-- There is a truthy value at position `i`, and `t` is the text of it. -/
def OverridesValue (items : Option (List Json)) (i : Nat) (t : String) : Prop :=
  ∃ values v, items = some values ∧ values[i]? = some v ∧ Body.isTruthy v = true ∧ Query.valueText v = t

/-- Wherever entries of both arrays override, they come to the same text. -/
def AgreeOn {α : Type} (overrides : Option (List α) → Nat → String → Prop) (xs ys : Option (List α)) : Prop :=
  ∀ i t u, overrides xs i t → overrides ys i u → t = u

/-- Two overlays agree on all four fields. -/
structure Agree (a b : Overlay) : Prop where
  names : AgreeOn OverridesText a.names b.names
  titles : AgreeOn OverridesText a.titles b.titles
  descriptions : AgreeOn OverridesText a.descriptions b.descriptions
  values : AgreeOn OverridesValue a.values b.values

theorem textAt_eq_some_iff {items : Option (List String)} {i : Nat} {t : String} :
    textAt items i = some t ↔ OverridesText items i t := by
  rw [textAt, Option.filter_eq_some_iff, Option.bind_eq_bind, Option.bind_eq_some_iff]
  constructor
  · rintro ⟨⟨texts, hitems, ht⟩, hempty⟩
    exact ⟨texts, hitems, ht, by simpa using hempty⟩
  · rintro ⟨texts, hitems, ht, hne⟩
    exact ⟨⟨texts, hitems, ht⟩, by simpa using hne⟩

theorem valueAt_eq_some_iff {items : Option (List Json)} {i : Nat} {t : String} :
    valueAt items i = some t ↔ OverridesValue items i t := by
  simp only [valueAt, Option.bind_eq_bind, Option.bind_eq_some_iff, replacement?_eq_some_iff]
  constructor
  · rintro ⟨v, ⟨values, hitems, hv⟩, htruthy, ht⟩
    exact ⟨values, v, hitems, hv, htruthy, ht⟩
  · rintro ⟨values, v, hitems, hv, htruthy, ht⟩
    exact ⟨v, ⟨values, hitems, hv⟩, htruthy, ht⟩

/-! ### One field -/

/-- Two replacements of a value exchange exactly when they are not different replacements. -/
private theorem getD_comm_iff {α : Type} [Inhabited α] (a b : Option α) :
    (∀ x, b.getD (a.getD x) = a.getD (b.getD x)) ↔ ∀ t u, a = some t → b = some u → t = u := by
  cases a with
  | none => simp
  | some t =>
    cases b with
    | none => simp
    | some u =>
      constructor
      · intro h t' u' ht hu
        cases ht
        cases hu
        exact (h default).symm
      · intro h x
        exact (h t u rfl rfl).symm

private theorem or_comm_iff {α : Type} (a b : Option α) :
    (∀ x, b.or (a.or x) = a.or (b.or x)) ↔ ∀ t u, a = some t → b = some u → t = u := by
  have hsome : ∀ (o : Option α) (x : Option α), o.or x = (o.map some).getD x := by
    intro o x
    cases o <;> rfl
  simp only [hsome, getD_comm_iff, Option.map_eq_some_iff]
  constructor
  · intro h t u ht hu
    exact Option.some.inj (h (some t) (some u) ⟨t, ht, rfl⟩ ⟨u, hu, rfl⟩)
  · rintro h _ _ ⟨t, ht, rfl⟩ ⟨u, hu, rfl⟩
    rw [h t u ht hu]

private theorem getD_getD_getD {α : Type} (a b : Option α) (x : α) :
    b.getD (a.getD (b.getD x)) = b.getD (a.getD x) := by
  cases b <;> rfl

private theorem or_or_or {α : Type} (a b x : Option α) : b.or (a.or (b.or x)) = b.or (a.or x) := by
  cases b <;> rfl

/-! ### One member -/

/-- At one position two overlays exchange if the entries there do, field by field. -/
theorem applyAt_comm_iff (a b : Overlay) (i : Nat) :
    (∀ m, b.applyAt i (a.applyAt i m) = a.applyAt i (b.applyAt i m)) ↔
      (∀ t u, textAt a.names i = some t → textAt b.names i = some u → t = u) ∧
      (∀ t u, textAt a.titles i = some t → textAt b.titles i = some u → t = u) ∧
      (∀ t u, textAt a.descriptions i = some t → textAt b.descriptions i = some u → t = u) ∧
      (∀ t u, valueAt a.values i = some t → valueAt b.values i = some u → t = u) := by
  constructor
  · intro h
    refine ⟨(getD_comm_iff _ _).1 fun name => ?_, (or_comm_iff _ _).1 fun title => ?_,
      (or_comm_iff _ _).1 fun description => ?_, (getD_comm_iff _ _).1 fun value => ?_⟩
    · exact congrArg Member.name (h ⟨name, none, "", none, .string⟩)
    · exact congrArg Member.title (h ⟨"", none, "", title, .string⟩)
    · exact congrArg Member.description (h ⟨"", description, "", none, .string⟩)
    · exact congrArg Member.value (h ⟨"", none, value, none, .string⟩)
  · rintro ⟨hnames, htitles, hdescriptions, hvalues⟩ m
    simp only [applyAt, Member.mk.injEq, and_true]
    exact ⟨(getD_comm_iff _ _).2 hnames m.name, (or_comm_iff _ _).2 hdescriptions m.description,
      (getD_comm_iff _ _).2 hvalues m.value, (or_comm_iff _ _).2 htitles m.title⟩

/-- An overlay that is applied again later might as well not have been applied before. -/
theorem applyAt_applyAt_applyAt (a b : Overlay) (i : Nat) (m : Member) :
    b.applyAt i (a.applyAt i (b.applyAt i m)) = b.applyAt i (a.applyAt i m) := by
  simp only [applyAt, getD_getD_getD, or_or_or]

/-! ### All members -/

theorem apply_apply (a b : Overlay) (members : List Member) :
    b.apply (a.apply members) = members.mapIdx fun i m => b.applyAt i (a.applyAt i m) := by
  rw [apply, apply, List.mapIdx_mapIdx]
  rfl

/-- Two overlays exchange on all enumerations exactly when they do on every member at every position. -/
theorem apply_comm_iff (a b : Overlay) :
    (∀ members, b.apply (a.apply members) = a.apply (b.apply members)) ↔
      ∀ i m, b.applyAt i (a.applyAt i m) = a.applyAt i (b.applyAt i m) := by
  simp only [apply_apply]
  constructor
  · intro h i m
    -- The member stands at position `i` of an enumeration that has nothing but copies of it.
    have hmember := congrArg (fun ms => ms[i]?) (h (List.replicate (i + 1) m))
    simpa using hmember
  · intro h members
    exact congrArg members.mapIdx (funext fun i => funext fun m => h i m)

theorem agree_iff (a b : Overlay) :
    Agree a b ↔ ∀ i m, b.applyAt i (a.applyAt i m) = a.applyAt i (b.applyAt i m) := by
  simp only [applyAt_comm_iff, textAt_eq_some_iff, valueAt_eq_some_iff]
  constructor
  · intro h i
    exact ⟨h.names i, h.titles i, h.descriptions i, h.values i⟩
  · intro h
    exact ⟨fun i => (h i).1, fun i => (h i).2.1, fun i => (h i).2.2.1, fun i => (h i).2.2.2⟩

/-- An overlay without arrays changes nothing. -/
theorem apply_none (members : List Member) : apply ⟨none, none, none, none⟩ members = members := by
  have hmember : applyAt ⟨none, none, none, none⟩ = fun _ m => m := by
    funext i m
    rfl
  rw [apply, hmember, List.mapIdx_eq_zipIdx_map]
  simp

/-- Two overlays may change places exactly when they agree; otherwise the last one wins, so that what it did before
makes no difference. -/
theorem apply_order (a b : Overlay) :
    ((∀ members, b.apply (a.apply members) = a.apply (b.apply members)) ↔ Agree a b) ∧
    (∀ members, b.apply (a.apply (b.apply members)) = b.apply (a.apply members)) ∧
    ∀ members, b.apply (b.apply members) = b.apply members := by
  have hlast : ∀ (o : Overlay) (members : List Member),
      b.apply (o.apply (b.apply members)) = b.apply (o.apply members) := by
    intro o members
    rw [apply_apply, apply_apply, apply, List.mapIdx_mapIdx]
    exact congrArg members.mapIdx (funext fun i => funext fun m => applyAt_applyAt_applyAt o b i m)
  refine ⟨(apply_comm_iff a b).trans (agree_iff a b).symm, hlast a, fun members => ?_⟩
  have hnothing := hlast ⟨none, none, none, none⟩ members
  rwa [apply_none, apply_none] at hnothing

end ApiClient.Enumeration.Overlay
