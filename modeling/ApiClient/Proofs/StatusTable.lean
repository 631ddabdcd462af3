import ApiClient.Proofs.Classification

/-!
# Messages laid over the usual ones

Messages are inserted into an empty table one after the other, and that table is laid over the usual one.  Under a
status there is then the last message for it, or else the usual one (`find?_overridden`), and an empty message takes
the status out (`message?_overridden`).  Such an entry can be seen by comparing tables but not by looking messages up:
the table is the usual one exactly if every last message is the usual message of its status
(`overridden_eq_usual_iff`), while the messages are the usual ones also if a status without one has an empty message
last (`message?_overridden_eq_usual_iff`).
-/

namespace ApiClient

open Keyed (IsLast last?)

namespace Descriptor

/-- The message that a step gives for a status, with the status. -/
def Step.error? : Step → Option (UInt16 × String)
  | .error status message => some (status, message)
  | _ => none

/-- Steps insert their messages in order. -/
theorem errors_applyAll (d : Descriptor) (steps : List Step) :
    (d.applyAll steps).errors = d.errors.insertAll (steps.filterMap Step.error?) := by
  induction steps generalizing d with
  | nil => rfl
  | cons step steps ih =>
    have hrest : (d.applyAll (step :: steps)).errors = ((d.apply step).applyAll steps).errors := rfl
    rw [hrest, ih]
    cases step with
    | error status message =>
      rw [List.filterMap_cons_some (show Step.error? (.error status message) = some (status, message) from rfl)]
      rfl
    | _ => rfl

end Descriptor

namespace StatusTable

/-- The usual messages with others laid over them, of which the last for a status counts. -/
def overridden (pairs : List (UInt16 × String)) : StatusTable := withOverrides (Keyed.empty.insertAll pairs)

/-! ### Looking messages up -/

theorem find?_overridden (pairs : List (UInt16 × String)) (status : UInt16) :
    (overridden pairs).messages.find? status = (last? status pairs).or (usualMessage? status) := by
  have hempty : (Keyed.empty : StatusMessages).find? status = none := rfl
  rw [overridden, withOverrides, Keyed.find?_insertAll_entries, Keyed.find?_insertAll, find?_usual, hempty,
    Option.or_none]

theorem message?_overridden (pairs : List (UInt16 × String)) (status : UInt16) :
    (overridden pairs).message? status =
      ((last? status pairs).or (usualMessage? status)).filter fun m => !m.isEmpty := by
  rw [message?, find?_overridden]

/-- None of the usual messages is empty. -/
theorem ne_empty_of_usualMessage? {status : UInt16} {m : String} (h : usualMessage? status = some m) : m ≠ "" := by
  unfold usualMessage? at h
  grind

theorem filter_usualMessage? (status : UInt16) :
    ((usualMessage? status).filter fun m => !m.isEmpty) = usualMessage? status := by
  cases h : usualMessage? status with
  | none => rfl
  | some m => simp [Option.filter_some, ne_empty_of_usualMessage? h]

theorem message?_usual (status : UInt16) : usual.message? status = usualMessage? status := by
  rw [message?, find?_usual, filter_usualMessage?]

theorem message?_of_last {pairs : List (UInt16 × String)} {status : UInt16} {m : String}
    (h : last? status pairs = some m) : (overridden pairs).message? status = if m = "" then none else some m := by
  rw [message?_overridden, h, Option.some_or, Option.filter_some]
  by_cases hm : m = "" <;> simp [hm]

theorem message?_of_none {pairs : List (UInt16 × String)} {status : UInt16} (h : last? status pairs = none) :
    (overridden pairs).message? status = usualMessage? status := by
  rw [message?_overridden, h, Option.none_or, filter_usualMessage?]

/-- A last message leaves what was there if it is the usual one, or empty where there is no usual one. -/
theorem shown_eq_usualMessage?_iff {status : UInt16} {m : String} :
    (if m = "" then none else some m) = usualMessage? status ↔ m = (usualMessage? status).getD "" := by
  cases husual : usualMessage? status with
  | none => by_cases hm : m = "" <;> simp [hm]
  | some u =>
    have hu : "" ≠ u := (ne_empty_of_usualMessage? husual).symm
    by_cases hm : m = ""
    · simp [hm, hu]
    · simp [hm]

theorem message?_overridden_eq_usual_iff {pairs : List (UInt16 × String)} :
    (∀ status, (overridden pairs).message? status = usual.message? status) ↔
      ∀ status m, IsLast pairs status m → m = (usualMessage? status).getD "" := by
  refine forall_congr' fun status => ?_
  simp only [← Keyed.last?_eq_some_iff, message?_usual]
  cases hlast : last? status pairs with
  | none => simp [message?_of_none hlast]
  | some m =>
    rw [message?_of_last hlast, shown_eq_usualMessage?_iff]
    simp

/-! ### Comparing tables -/

theorem overridden_eq_usual_iff {pairs : List (UInt16 × String)} :
    overridden pairs = usual ↔ ∀ status m, IsLast pairs status m → usualMessage? status = some m := by
  constructor
  · intro h status m hlast
    have hfind := find?_overridden pairs status
    rw [h, find?_usual, Keyed.last?_eq_some_iff.2 hlast, Option.some_or] at hfind
    exact hfind
  · intro h
    have hmessages : (overridden pairs).messages = usual.messages := by
      refine Keyed.ext_find? fun status => ?_
      rw [find?_overridden, find?_usual]
      cases hlast : last? status pairs with
      | none => exact Option.none_or
      | some m => exact (h status m (Keyed.last?_eq_some_iff.1 hlast)).symm
    exact congrArg StatusTable.mk hmessages

/-- An empty message for a status without a usual one leaves all messages as they are, but it stays in the table. -/
theorem overridden_append_empty {status : UInt16} (hnone : usualMessage? status = none)
    (pairs : List (UInt16 × String)) :
    overridden (pairs ++ [(status, "")]) ≠ usual ∧
      ((∀ s, (overridden pairs).message? s = usual.message? s) →
        ∀ s, (overridden (pairs ++ [(status, "")])).message? s = usual.message? s) := by
  constructor
  · intro h
    have hmessage := overridden_eq_usual_iff.1 h status "" ⟨pairs, [], rfl, List.not_mem_nil⟩
    rw [hnone] at hmessage
    cases hmessage
  · intro h s
    have hlast : last? s (pairs ++ [(status, "")]) = if compare s status = .eq then some "" else last? s pairs := by
      rw [last?, List.reverse_concat]
      rfl
    by_cases hs : compare s status = .eq
    · obtain rfl := Std.LawfulEqCmp.eq_of_compare hs
      rw [if_pos hs] at hlast
      rw [message?_of_last hlast, if_pos rfl, message?_usual, hnone]
    · rw [if_neg hs] at hlast
      rw [message?_overridden, hlast, ← message?_overridden, h]

/-- Of the messages for a status the last counts, and an empty one counts as none; without any the usual message
stays.  The table is the usual one exactly if every last message is the usual one of its status, while its messages
are also the usual ones if some status without a usual message has an empty one last. -/
theorem messages_of_overrides (pairs : List (UInt16 × String)) :
    (∀ status m, IsLast pairs status m → m ≠ "" → (overridden pairs).message? status = some m) ∧
    (∀ status, IsLast pairs status "" → (overridden pairs).message? status = none) ∧
    (∀ status, status ∉ pairs.map Prod.fst → (overridden pairs).message? status = usualMessage? status) ∧
    (overridden pairs = usual ↔ ∀ status m, IsLast pairs status m → usualMessage? status = some m) ∧
    ((∀ status, (overridden pairs).message? status = usual.message? status) ↔
      ∀ status m, IsLast pairs status m → m = (usualMessage? status).getD "") ∧
    (∀ status, usualMessage? status = none →
      overridden (pairs ++ [(status, "")]) ≠ usual ∧
        ((∀ s, (overridden pairs).message? s = usual.message? s) →
          ∀ s, (overridden (pairs ++ [(status, "")])).message? s = usual.message? s)) ∧
    (∀ method path steps, steps.filterMap Descriptor.Step.error? = pairs →
      withOverrides ((Descriptor.ofPath method path).applyAll steps).errors = overridden pairs) := by
  refine ⟨?_, ?_, ?_, overridden_eq_usual_iff, message?_overridden_eq_usual_iff, ?_, ?_⟩
  · intro status m hlast hm
    rw [message?_of_last (Keyed.last?_eq_some_iff.2 hlast), if_neg hm]
  · intro status hlast
    rw [message?_of_last (Keyed.last?_eq_some_iff.2 hlast), if_pos rfl]
  · intro status hnone
    exact message?_of_none (Keyed.last?_eq_none_iff.2 hnone)
  · intro status hnone
    exact overridden_append_empty hnone pairs
  · rintro method path steps rfl
    rw [Descriptor.errors_applyAll]
    rfl

/-- A message that is masked and one that comes back, and a mask where there is nothing to mask. -/
example :
    [404, 403, 500].map (overridden [(404, "a"), (403, ""), (404, ""), (403, "b")]).message? =
        [none, some "b", some "Internal Server Error"] ∧
      overridden [(418, "")] ≠ usual := by
  decide +kernel

end StatusTable

end ApiClient
