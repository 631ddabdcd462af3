import ApiClient.Json.Model
import ApiClient.Text.Utf8

/-!
# Client configuration

Where calls go and the token that signs them.  A configuration is read from JSON or from two environment variables,
whose values are bytes: a value that is not UTF-8 counts as not set.
-/

namespace ApiClient

/-- The settings that all calls of a client share. -/
structure Config where
  /-- What every path is appended to. -/
  baseUrl : String
  token : Option String
  deriving DecidableEq

namespace Config

/-- The token that is sent: one that is there and not empty. -/
def bearerToken (c : Config) : Option String := c.token.filter fun t => !t.isEmpty

instance : JsonRecord Config where
  fields := [⟨"base_url", .text fun _ => true, false⟩, ⟨"token", .optionalText, true⟩]
  members c := ("base_url", .str c.baseUrl) :: (c.token.map fun t => ("token", Json.str t)).toList
  ofFields?
    | [.str url, token] => do
      let token ← JsonModel.ofJson? token
      return ⟨url, token⟩
    | _ => none

/-! ### Environment -/

/-- The variable that holds the base URL. -/
def baseUrlVariable : String := "APIGEN_BASE_URL"

/-- The variable that holds the token. -/
def tokenVariable : String := "APIGEN_TOKEN"

/-- A variable that has to be set and is not. -/
structure MissingVariable where
  name : String
  deriving DecidableEq

/-- The words for a missing variable. -/
def MissingVariable.message (e : MissingVariable) : String := s!"environment variable {e.name} is not set"

/-- The value of an environment variable as text. -/
def variableText (value : Option (List UInt8)) : Option String :=
  (value >>= Text.Utf8.decode?).map String.ofList

/-- The configuration in an environment, which gives the bytes of the variables that are set. -/
def ofEnvironment (env : String → Option (List UInt8)) : Except MissingVariable Config :=
  match variableText (env baseUrlVariable) with
  | some url => .ok ⟨url, variableText (env tokenVariable)⟩
  | none => .error ⟨baseUrlVariable⟩

end Config

end ApiClient
