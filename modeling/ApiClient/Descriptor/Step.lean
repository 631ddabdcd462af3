import ApiClient.Descriptor.Basic

/-!
# Building a description step by step

A description is built by steps, each of which concerns one field.  Query parameters, headers and form fields add up
in order; of bodies and response headers the last counts; of messages the last for each status.
-/

namespace ApiClient.Descriptor

/-- One addition to a description. -/
inductive Step where
  | query (key : String) (value : Json)
  | header (name value : String)
  | body (body : Body)
  | jsonBody (value : Json)
  | formField (key : String) (value : Json)
  | responseHeader (name : String)
  | error (status : UInt16) (message : String)

/-- The description with one addition. -/
def apply (d : Descriptor) : Step → Descriptor
  | .query key value => { d with query := d.query ++ [(key, value)] }
  | .header name value => { d with headers := d.headers ++ [(name, value)] }
  | .body body => { d with body := some body }
  | .jsonBody value => { d with body := some (.json value) }
  | .formField key value => { d with form := some (d.form.getD [] ++ [(key, value)]) }
  | .responseHeader name => { d with responseHeader := some name }
  | .error status message => { d with errors := d.errors.insert status message }

/-- The description with additions made in order. -/
def applyAll (d : Descriptor) (steps : List Step) : Descriptor := steps.foldl apply d

/-- The descriptions after none, one, … all of the additions. -/
def stages (d : Descriptor) : List Step → List Descriptor
  | [] => [d]
  | step :: steps => d :: stages (d.apply step) steps

theorem getLast?_stages (d : Descriptor) (steps : List Step) :
    (d.stages steps).getLast? = some (d.applyAll steps) := by
  induction steps generalizing d with
  | nil => rfl
  | cons step steps ih =>
    have h := ih (d.apply step)
    cases hs : (d.apply step).stages steps with
    | nil => rw [hs] at h; cases h
    | cons x xs => rw [stages, hs, List.getLast?_cons_cons, ← hs, h]; rfl

end ApiClient.Descriptor
