import ApiClient.Descriptor.Step
import ApiClient.Execution
import ApiClient.Proofs.Keyed

/-!
# What steps add up to

Every step concerns one field, so a field is what the steps for it make of it, whatever comes between them: query
parameters, headers and form fields in order, the last body, the last response header, and under every status its last
message (`isBuilt_applyAll`).  Steps for different fields, and messages for different statuses, can therefore be put
in any order (`steps_commute`).
-/

namespace ApiClient.Descriptor

namespace Step

/-! ### What a step gives for each field -/

/-- The query parameter of a step. -/
def query? : Step → Option (String × Json)
  | .query key value => some (key, value)
  | _ => none

/-- The header of a step. -/
def header? : Step → Option Http.Header
  | .header name value => some (name, value)
  | _ => none

/-- The body of a step. -/
def body? : Step → Option Body
  | .body b => some b
  | .jsonBody value => some (.json value)
  | _ => none

/-- The form field of a step. -/
def formField? : Step → Option (String × Json)
  | .formField key value => some (key, value)
  | _ => none

/-- The response header that a step asks for. -/
def responseHeader? : Step → Option String
  | .responseHeader name => some name
  | _ => none

/-- The message of a step for a status. -/
def messageFor? (status : UInt16) : Step → Option String
  | .error s message => if s = status then some message else none
  | _ => none

end Step

/-! ### What steps make of one field -/

/-- What the last of the steps gives that give anything. -/
def lastOf {α : Type} (f : Step → Option α) (steps : List Step) : Option α := (steps.filterMap f).getLast?

theorem lastOf_cons {α : Type} (f : Step → Option α) (step : Step) (steps : List Step) :
    lastOf f (step :: steps) = (lastOf f steps).or (f step) := by
  cases hstep : f step with
  | none => rw [lastOf, lastOf, List.filterMap_cons_none hstep, Option.or_none]
  | some a =>
    rw [lastOf, lastOf, List.filterMap_cons_some hstep, List.getLast?_cons]
    cases (steps.filterMap f).getLast? <;> rfl

section
variable {α : Type} {f : Step → Option α}

/-- A field to which steps add. -/
theorem applyAll_of_append {field : Descriptor → List α}
    (h : ∀ d step, field (apply d step) = field d ++ (f step).toList) (d : Descriptor) (steps : List Step) :
    field (d.applyAll steps) = field d ++ steps.filterMap f := by
  induction steps generalizing d with
  | nil => rw [List.filterMap_nil, List.append_nil]; rfl
  | cons step steps ih =>
    have hrest : field (d.applyAll (step :: steps)) = field (d.apply step) ++ steps.filterMap f := ih (d.apply step)
    rw [hrest, h]
    cases hstep : f step with
    | none => rw [List.filterMap_cons_none hstep]; simp
    | some a => rw [List.filterMap_cons_some hstep]; simp

/-- A field of which the last step counts. -/
theorem applyAll_of_or {field : Descriptor → Option α} (h : ∀ d step, field (apply d step) = (f step).or (field d))
    (d : Descriptor) (steps : List Step) : field (d.applyAll steps) = (lastOf f steps).or (field d) := by
  induction steps generalizing d with
  | nil => rfl
  | cons step steps ih =>
    have hrest : field (d.applyAll (step :: steps)) = (lastOf f steps).or (field (d.apply step)) := ih (d.apply step)
    rw [hrest, h, lastOf_cons, Option.or_assoc]

/-- A field that no step changes. -/
theorem applyAll_of_eq {field : Descriptor → α} (h : ∀ d step, field (apply d step) = field d) (d : Descriptor)
    (steps : List Step) : field (d.applyAll steps) = field d := by
  induction steps generalizing d with
  | nil => rfl
  | cons step steps ih => exact (ih (d.apply step)).trans (h d step)

end

section
variable (d : Descriptor) (steps : List Step)

theorem method_applyAll : (d.applyAll steps).method = d.method :=
  applyAll_of_eq (fun d step => by cases step <;> rfl) d steps

theorem path_applyAll : (d.applyAll steps).path = d.path :=
  applyAll_of_eq (fun d step => by cases step <;> rfl) d steps

theorem query_applyAll : (d.applyAll steps).query = d.query ++ steps.filterMap Step.query? :=
  applyAll_of_append (fun d step => by cases step <;> simp [apply, Step.query?]) d steps

theorem headers_applyAll : (d.applyAll steps).headers = d.headers ++ steps.filterMap Step.header? :=
  applyAll_of_append (fun d step => by cases step <;> simp [apply, Step.header?]) d steps

theorem body_applyAll : (d.applyAll steps).body = (lastOf Step.body? steps).or d.body :=
  applyAll_of_or (fun d step => by cases step <;> rfl) d steps

theorem responseHeader_applyAll :
    (d.applyAll steps).responseHeader = (lastOf Step.responseHeader? steps).or d.responseHeader :=
  applyAll_of_or (fun d step => by cases step <;> rfl) d steps

theorem find?_errors_applyAll (status : UInt16) :
    (d.applyAll steps).errors.find? status = (lastOf (Step.messageFor? status) steps).or (d.errors.find? status) := by
  refine @applyAll_of_or _ _ (fun d => d.errors.find? status) (fun d step => ?_) d steps
  cases step with
  | error s message =>
    simp only [apply, Keyed.find?_insert, Step.messageFor?, Std.LawfulEqCmp.compare_eq_iff_eq, eq_comm (a := status)]
    split <;> rfl
  | _ => rfl

/-- Form fields add up, and there is a form as soon as there is a field. -/
theorem form_applyAll :
    (d.applyAll steps).form =
      if steps.filterMap Step.formField? = [] then d.form
      else some (d.form.getD [] ++ steps.filterMap Step.formField?) := by
  induction steps generalizing d with
  | nil => rfl
  | cons step steps ih =>
    have hrest : (d.applyAll (step :: steps)).form = ((d.apply step).applyAll steps).form := rfl
    rw [hrest, ih]
    cases step with
    | formField key value =>
      have hfield : (d.apply (.formField key value)).form = some (d.form.getD [] ++ [(key, value)]) := rfl
      rw [hfield, List.filterMap_cons_some (show Step.formField? (.formField key value) = some (key, value) from rfl)]
      split <;> simp_all
    | _ => rfl

end

/-! ### What steps make of a description -/

/-- The description has the fields that steps give it, and no others. -/
structure IsBuilt (method : Http.Method) (path : String) (steps : List Step) (d : Descriptor) : Prop where
  method : d.method = method
  path : d.path = path
  query : d.query = steps.filterMap Step.query?
  headers : d.headers = steps.filterMap Step.header?
  body : d.body = lastOf Step.body? steps
  /-- There is a form exactly if there is a step for it. -/
  form : d.form = if steps.filterMap Step.formField? = [] then none else some (steps.filterMap Step.formField?)
  responseHeader : d.responseHeader = lastOf Step.responseHeader? steps
  errors : ∀ status, d.errors.find? status = lastOf (Step.messageFor? status) steps

/-- Two lists of steps give the same for every field. -/
structure SameFields (xs ys : List Step) : Prop where
  query : xs.filterMap Step.query? = ys.filterMap Step.query?
  headers : xs.filterMap Step.header? = ys.filterMap Step.header?
  body : lastOf Step.body? xs = lastOf Step.body? ys
  form : xs.filterMap Step.formField? = ys.filterMap Step.formField?
  responseHeader : lastOf Step.responseHeader? xs = lastOf Step.responseHeader? ys
  errors : ∀ status, lastOf (Step.messageFor? status) xs = lastOf (Step.messageFor? status) ys

section
variable {method : Http.Method} {path : String} {xs ys : List Step}

theorem isBuilt_applyAll (steps : List Step) : IsBuilt method path steps ((ofPath method path).applyAll steps) := by
  constructor
  · exact method_applyAll _ steps
  · exact path_applyAll _ steps
  · exact query_applyAll _ steps
  · exact headers_applyAll _ steps
  · rw [body_applyAll]
    exact Option.or_none
  · exact form_applyAll _ steps
  · rw [responseHeader_applyAll]
    exact Option.or_none
  · intro status
    rw [find?_errors_applyAll]
    exact Option.or_none

namespace IsBuilt

variable {d e : Descriptor} (hd : IsBuilt method path xs d) (he : IsBuilt method path ys e)
include hd he

/-- Steps build the same description exactly if they give the same for every field. -/
theorem eq_iff : d = e ↔ SameFields xs ys := by
  constructor
  · rintro rfl
    refine ⟨hd.query.symm.trans he.query, hd.headers.symm.trans he.headers, hd.body.symm.trans he.body, ?_,
      hd.responseHeader.symm.trans he.responseHeader, fun status => (hd.errors status).symm.trans (he.errors status)⟩
    have hform := hd.form.symm.trans he.form
    split at hform
    · rename_i hxs
      split at hform
      · rename_i hys
        rw [hxs, hys]
      · cases hform
    · split at hform
      · cases hform
      · exact Option.some.inj hform
  · intro h
    have hmethod : d.method = e.method := hd.method.trans he.method.symm
    have hpath : d.path = e.path := hd.path.trans he.path.symm
    have hquery : d.query = e.query := by rw [hd.query, he.query, h.query]
    have hheaders : d.headers = e.headers := by rw [hd.headers, he.headers, h.headers]
    have hbody : d.body = e.body := by rw [hd.body, he.body, h.body]
    have hform : d.form = e.form := by rw [hd.form, he.form, h.form]
    have hresponse : d.responseHeader = e.responseHeader := by
      rw [hd.responseHeader, he.responseHeader, h.responseHeader]
    have herrors : d.errors = e.errors :=
      Keyed.ext_find? fun status => by rw [hd.errors, he.errors, h.errors]
    cases d
    cases e
    simp only [Descriptor.mk.injEq]
    exact ⟨hmethod, hpath, hquery, hheaders, hbody, hform, hresponse, herrors⟩

end IsBuilt

end

/-- The fields of the description that steps build are those of the steps, and two lists of steps build the same
description, whose requests and interpretations are then the same, exactly if they give the same for every field. -/
theorem steps_commute (method : Http.Method) (path : String) :
    (∀ steps, IsBuilt method path steps ((ofPath method path).applyAll steps)) ∧
    ∀ xs ys,
      ((ofPath method path).applyAll xs = (ofPath method path).applyAll ys ↔ SameFields xs ys) ∧
      (SameFields xs ys →
        (∀ config,
          ((ofPath method path).applyAll xs).request config = ((ofPath method path).applyAll ys).request config) ∧
        ∀ url r,
          ((ofPath method path).applyAll xs).interpret url r =
            ((ofPath method path).applyAll ys).interpret url r) := by
  refine ⟨isBuilt_applyAll, fun xs ys => ?_⟩
  have hiff : (ofPath method path).applyAll xs = (ofPath method path).applyAll ys ↔ SameFields xs ys :=
    (isBuilt_applyAll xs).eq_iff (isBuilt_applyAll ys)
  refine ⟨hiff, fun h => ?_⟩
  rw [hiff.2 h]
  exact ⟨fun _ => rfl, fun _ _ => rfl⟩

/-- Messages for two statuses, one of them with two, in two orders. -/
example :
    ((ofPath .get "/").applyAll [.error 404 "a", .query "q" .null, .error 400 "", .error 404 "b"]).errors.entries =
      ((ofPath .get "/").applyAll
        [.error 400 "c", .error 404 "a", .error 404 "b", .error 400 ""]).errors.entries := by
  decide +kernel

end ApiClient.Descriptor
