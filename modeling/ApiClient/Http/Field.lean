import ApiClient.Http.Header
import ApiClient.Text.Blank

/-!
# Header fields

Which headers can be sent.  A name is a token, a value has no control character but the tab.  The headers that tell
where a message ends are the sender's own.
-/

namespace ApiClient.Http

/-- The characters of a header name. -/
def isTokenChar (c : Char) : Bool :=
  c.isAlphanum || ['!', '#', '$', '%', '&', '\'', '*', '+', '-', '.', '^', '_', '\x60', '|', '~'].contains c

/-- Whether a text may be the name of a header. -/
def isToken (name : String) : Bool := !name.isEmpty && name.toList.all isTokenChar

/-- Whether a text may be the value of a header. -/
def isFieldValue (value : String) : Bool := value.toList.all fun c => c == '\t' || (0x20 ≤ c.toNat && c.toNat != 0x7F)

/-- Whether a value is visible ASCII without blanks. -/
def isTidy (value : String) : Bool := value.toList.all fun c => 0x20 < c.toNat && c.toNat < 0x7F

/-- The names of the headers that tell where a message ends. -/
def framingNames : List String := ["content-length", "transfer-encoding"]

/-- Whether headers can be sent: they are well-formed and do not tell where the message ends. -/
def isSendable (headers : Headers) : Bool :=
  headers.all fun h => isToken h.1 && isFieldValue h.2 && !framingNames.contains (Text.lower h.1)

end ApiClient.Http
