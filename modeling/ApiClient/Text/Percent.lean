import ApiClient.Text.Hex
import ApiClient.Text.Utf8

/-!
# Percent encoding

A text is written byte by byte: the characters that a set keeps stand for themselves, every byte of the others becomes
`%` and two upper-case hexadecimal digits.  Reading turns each `%` that two digits follow back into a byte and leaves
every other character as it is.
-/

namespace ApiClient.Text.Percent

/-- A byte as `%` and two digits. -/
def escapeByte (b : UInt8) : List Char := ['%', Hex.upperDigit (b.toNat / 16), Hex.upperDigit (b.toNat % 16)]

/-- One character, itself if `keep` holds of it and its bytes escaped if not. -/
def encodeChar (keep : Char → Bool) (c : Char) : List Char :=
  if keep c then [c] else (Utf8.encodeChar c).flatMap escapeByte

/-- A text with every character that `keep` refuses escaped. -/
def encode (keep : Char → Bool) (cs : List Char) : List Char := cs.flatMap (encodeChar keep)

/-- The bytes that a percent-encoded text stands for. -/
def decodeBytes : List Char → List UInt8
  | [] => []
  | '%' :: h :: l :: rest =>
    match Hex.value? h, Hex.value? l with
    | some high, some low => UInt8.ofNat (high * 16 + low) :: decodeBytes rest
    | _, _ => Utf8.encodeChar '%' ++ decodeBytes (h :: l :: rest)
  | c :: rest => Utf8.encodeChar c ++ decodeBytes rest

/-- The text that a percent-encoded text stands for, if its bytes are UTF-8. -/
def decode? (cs : List Char) : Option (List Char) := Utf8.decode? (decodeBytes cs)

/-- The characters that stand for themselves in the keys and values of a query string: ASCII letters and digits and
`-`, `_`, `.`, `!`, `~`, `*`, `'`, `(`, `)`. -/
def isComponentChar (c : Char) : Bool :=
  c.isAlphanum || ['-', '_', '.', '!', '~', '*', '\'', '(', ')'].contains c

/-- A key or value of a query string. -/
def encodeComponent (cs : List Char) : List Char := encode isComponentChar cs

end ApiClient.Text.Percent
