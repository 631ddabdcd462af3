import ApiClient.Text.Percent
import ApiClient.Text.Split

/-!
# Form-encoded pairs

Reading `application/x-www-form-urlencoded` text: pieces between `&`, empty ones skipped, each split at its first `=`,
with `+` for a space and percent-encoded bytes.  A piece without `=` is a key with an empty value.
-/

namespace ApiClient.Text.Form

/-- One side of a pair: `+` is a space, bytes are percent-encoded, and broken UTF-8 is replaced. -/
def decodeComponent (cs : List Char) : String :=
  String.ofList (Utf8.decodeLossy (Percent.decodeBytes (cs.map fun c => if c = '+' then ' ' else c)))

/-- The pairs of a form-encoded text, in order. -/
def decode (cs : List Char) : List (String × String) :=
  ((splitBy (fun c => c == '&') cs).filter fun piece => !piece.isEmpty).map fun piece =>
    let (key, value) := splitFirst '=' piece
    (decodeComponent key, decodeComponent (value.getD []))

end ApiClient.Text.Form
