import ApiClient.Proofs.Binary64
import ApiClient.Proofs.Enumeration.Chain
import ApiClient.Proofs.Json.Scalar

/-!
# Values that take the place of a member's own

A value at some position takes the place of a member's own exactly when it would count as a body, and its text is that
of a parameter (`valueAt_of_list`).  The text of a value is empty for the empty string only
(`valueText_eq_empty_iff`), which does not count.  A number counts by the double that it is read as, which is zero
only if the number is (`exists_double`).
-/

namespace ApiClient

/-! ### Texts -/

theorem Json.print_ne_nil (v : Json) : v.print ≠ [] := by
  cases v with
  | null => simp [print]
  | bool b => cases b <;> simp [print]
  | num n =>
    cases n with
    | int n hn =>
      obtain ⟨c, cs, hcs, -⟩ := printNumber_cons n hn
      simp [print, hcs]
    | float x => exact Binary64.print_ne_nil x
  | str s => simp [print, printStr]
  | arr items => cases items <;> simp [print]
  | obj members => cases members <;> simp [print]

theorem Query.valueText_eq_empty_iff {v : Json} : valueText v = "" ↔ v = .str "" := by
  have hrender : v.render ≠ "" := by
    rw [Ne, ← String.toList_inj, Json.render, String.toList_ofList]
    exact v.print_ne_nil
  cases v with
  | str s => simp [valueText]
  | _ => simpa [valueText] using hrender

/-! ### Numbers -/

/-- Every number is read as a double, and counts as a body if that is not zero. -/
theorem Body.exists_double (n : Json.Number) :
    ∃ x : Binary64, JsonModel.ofJson? (.num n) = some x ∧ (isTruthy (.num n) = true ↔ x.isZero = false) := by
  cases n with
  | int n hn =>
    obtain ⟨x, hx, hzero⟩ := Binary64.exists_ofInt hn
    refine ⟨x, hx, ?_⟩
    rw [hzero, isTruthy, Json.Number.isZero, Bool.not_eq_true']
  | float x =>
    refine ⟨x, rfl, ?_⟩
    rw [isTruthy, Json.Number.isZero, Bool.not_eq_true']

namespace Enumeration.Overlay

/-! ### Values by position -/

theorem replacement?_eq (v : Json) :
    replacement? v = if Body.isTruthy v then some (Query.valueText v) else none := by
  apply Option.ext
  intro t
  rw [replacement?_eq_some_iff]
  cases Body.isTruthy v <;> simp

/-- Of a list of values, the one at a position takes the place of a member's own exactly when it would count as a
body, with the text that it would have as a parameter, which is not empty.  A number counts by the double that it is
read as. -/
theorem valueAt_of_list (items : List Json) (i : Nat) :
    valueAt (some items) i = (items[i]?.filter Body.isTruthy).map Query.valueText ∧
      valueAt (some items) i ≠ some "" ∧
      ((valueAt (some items) i).isSome = true ↔ ∃ v, items[i]? = some v ∧ Body.isTruthy v = true) ∧
      ∀ n : Json.Number, ∃ x : Binary64, JsonModel.ofJson? (.num n) = some x ∧
        (Body.isTruthy (.num n) = true ↔ x.isZero = false) := by
  have hvalue : valueAt (some items) i = (items[i]?.filter Body.isTruthy).map Query.valueText := by
    show items[i]?.bind replacement? = _
    cases items[i]? with
    | none => rfl
    | some v =>
      rw [Option.bind_some, replacement?_eq, Option.filter_some]
      split <;> rfl
  refine ⟨hvalue, ?_, ?_, Body.exists_double⟩
  · rw [hvalue]
    intro h
    obtain ⟨v, hv, hempty⟩ := Option.map_eq_some_iff.1 h
    have htruthy := (Option.filter_eq_some_iff.1 hv).2
    -- Only the empty string has an empty text, and it does not count.
    rw [Query.valueText_eq_empty_iff.1 hempty] at htruthy
    cases htruthy
  · rw [hvalue, Option.isSome_map, Option.isSome_iff_exists]
    exact exists_congr fun v => Option.filter_eq_some_iff

/-- Negative zero takes no place; the least double and an empty array do. -/
example :
    (List.range 4).map
        (valueAt (some [.num (.float ⟨true, 0, by decide⟩), .num (.float ⟨false, 1, by decide⟩), .arr []])) =
      [none, some "5e-324", some "[]", none] := by
  decide +kernel

end Enumeration.Overlay

end ApiClient
