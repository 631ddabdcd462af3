import ApiClient.Content
import ApiClient.Descriptor.Basic

/-!
# Answers and their classification

An answer is what a call comes to when the server responded.  It is classified by a table of messages by status: the
usual ones with those of the call on top.  A status with a message fails the call, even one that reports success; an
empty message takes a status out of the table.  A status without a message fails the call exactly when it does not
report success.
-/

namespace ApiClient

/-- What a call comes to when the server responded. -/
structure Answer where
  url : String
  ok : Bool
  status : UInt16
  statusText : String
  content : Content
  deriving DecidableEq

namespace Answer

/-- The content of an answer as a value of a type. -/
def read (α : Type) [JsonModel α] (a : Answer) : Option α := a.content.read α

end Answer

/-- Why a call failed. -/
inductive Failure where
  /-- The status has a message in the table. -/
  | status (answer : Answer) (message : String)
  /-- The status has no message and does not report success. -/
  | generic (answer : Answer)
  /-- The body could not be written. -/
  | serialization (reason : String)
  deriving DecidableEq

namespace Failure

/-- The words for a failure. -/
def message : Failure → String
  | .status _ message => message
  | .generic _ => "Generic Error"
  | .serialization reason => "serialization failed: " ++ reason

/-- The answer that a failure is about. -/
def answer? : Failure → Option Answer
  | .status answer _ => some answer
  | .generic answer => some answer
  | .serialization _ => none

/-- The status that a failure is about. -/
def status? (f : Failure) : Option UInt16 := f.answer?.map Answer.status

end Failure

/-! ### Messages by status -/

/-- The messages that fail a call, by status. -/
structure StatusTable where
  messages : StatusMessages
  deriving DecidableEq

namespace StatusTable

/-- The usual messages. -/
def usual : StatusTable :=
  ⟨Keyed.empty.insertAll
    [(400, "Bad Request"), (401, "Unauthorized"), (403, "Forbidden"), (404, "Not Found"),
      (500, "Internal Server Error"), (502, "Bad Gateway"), (503, "Service Unavailable")]⟩

/-- The usual messages with others on top. -/
def withOverrides (overrides : StatusMessages) : StatusTable :=
  ⟨usual.messages.insertAll overrides.entries⟩

/-- The message for a status; an empty one is none. -/
def message? (t : StatusTable) (status : UInt16) : Option String :=
  (t.messages.find? status).filter fun m => !m.isEmpty

/-- The answer if it passes the table, and the failure that it is if not. -/
def check (t : StatusTable) (answer : Answer) : Except Failure Answer :=
  match t.message? answer.status with
  | some message => .error (.status answer message)
  | none => if answer.ok then .ok answer else .error (.generic answer)

end StatusTable

end ApiClient
