import ApiClient.Text.Fold

/-!
# Request methods

The seven methods a call may use.  Their names are read in any letter case and written in capitals.

Key fact: `ofName_name`, the written name is read back.
-/

namespace ApiClient.Http

/-- A request method. -/
inductive Method where
  | get | put | post | delete | options | head | patch
  deriving DecidableEq

namespace Method

/-- The name of a method, in capitals. -/
def name : Method → String
  | .get => "GET"
  | .put => "PUT"
  | .post => "POST"
  | .delete => "DELETE"
  | .options => "OPTIONS"
  | .head => "HEAD"
  | .patch => "PATCH"

/-- All methods. -/
def all : List Method := [.get, .put, .post, .delete, .options, .head, .patch]

/-- A method name that is none of the seven. -/
structure Unknown where
  name : String
  deriving DecidableEq

/-- The words for an unknown method, its name as it was given. -/
def Unknown.message (e : Unknown) : String := "unsupported HTTP method: " ++ e.name

/-- The method of a name in any letter case. -/
def ofName (s : String) : Except Unknown Method :=
  match all.find? fun m => m.name == Text.upper s with
  | some m => .ok m
  | none => .error ⟨s⟩

theorem ofName_name (m : Method) : ofName m.name = .ok m := by cases m <;> rfl

end Method

end ApiClient.Http
