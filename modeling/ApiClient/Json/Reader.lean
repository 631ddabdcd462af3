import ApiClient.Binary64.Scaled
import ApiClient.Json.Basic
import ApiClient.Text.Hex
import ApiClient.Text.Utf8

/-!
# Reading JSON

A reader takes the characters still to be read and returns what it read and the rest.  It refuses a text for one of
two faults: the text is not JSON, or it is JSON so far and a value has the wrong shape.  Reading goes from left to
right, so the first fault in the text is the one reported.

A value may have at most 127 arrays and objects open at once; `value` is structural in the number that may still be
opened.  An object may stand for the value of a text embedded in it as a string; `layered` is structural in the number
of texts that may still be opened inside each other.  Lists between brackets are read by `enclosed`, whose fuel is the
length of the text it starts with.
-/

namespace ApiClient.Json

/-- Why a text was refused. -/
inductive Fault where
  /-- The text is not JSON. -/
  | malformed
  /-- A value does not have the shape asked for. -/
  | mismatch
  deriving DecidableEq

/-- A reader of `α`: what it read and the characters after it. -/
abbrev Reader (α : Type) := List Char → Except Fault (α × List Char)

/-- The reader that accepts nothing. -/
def refuse {α : Type} : Reader α := fun _ => .error .malformed

/-! ### Blanks and words -/

/-- The four blank characters of JSON. -/
def isSpace (c : Char) : Bool := c == ' ' || c == '\t' || c == '\n' || c == '\r'

/-- The text after its leading blanks. -/
def skipSpace (cs : List Char) : List Char := cs.dropWhile isSpace

/-- What follows `word`, which the text has to begin with. -/
def expect (word cs : List Char) : Except Fault (List Char) :=
  if word.isPrefixOf cs then .ok (cs.drop word.length) else .error .malformed

/-! ### Strings -/

/-- Four hexadecimal digits. -/
def hexQuad : Reader Nat
  | a :: b :: c :: d :: rest =>
    match Text.Hex.value? a, Text.Hex.value? b, Text.Hex.value? c, Text.Hex.value? d with
    | some a, some b, some c, some d => .ok (((a * 16 + b) * 16 + c) * 16 + d, rest)
    | _, _, _, _ => .error .malformed
  | _ => .error .malformed

/-- The character after `\u`.  A high surrogate needs a low one in an escape of its own right after it, and a low one
may not stand first. -/
def unicodeEscape : Reader Char := fun cs => do
  let (n, rest) ← hexQuad cs
  if 0xDC00 ≤ n ∧ n < 0xE000 then .error .malformed
  else if 0xD800 ≤ n ∧ n < 0xDC00 then
    let rest ← expect ['\\', 'u'] rest
    let (low, rest) ← hexQuad rest
    if 0xDC00 ≤ low ∧ low < 0xE000 then .ok (Char.ofNat (0x10000 + (n - 0xD800) * 0x400 + (low - 0xDC00)), rest)
    else .error .malformed
  else .ok (Char.ofNat n, rest)

/-- The character after `\u` where the text is only passed over: any four digits will do. -/
def looseUnicodeEscape : Reader Char := fun cs => do
  let (n, rest) ← hexQuad cs
  .ok (Char.ofNat n, rest)

/-- The character after a backslash. -/
def escape (unicode : Reader Char) : Reader Char
  | '"' :: rest => .ok ('"', rest)
  | '\\' :: rest => .ok ('\\', rest)
  | '/' :: rest => .ok ('/', rest)
  | 'b' :: rest => .ok ('\x08', rest)
  | 'f' :: rest => .ok ('\x0c', rest)
  | 'n' :: rest => .ok ('\n', rest)
  | 'r' :: rest => .ok ('\r', rest)
  | 't' :: rest => .ok ('\t', rest)
  | 'u' :: rest => unicode rest
  | _ => .error .malformed

/-- The rest of a string, of which `acc` has been read, in reverse. -/
def stringTail (unicode : Reader Char) : Nat → List Char → Reader String
  | 0, _, _ => .error .malformed
  | _ + 1, _, [] => .error .malformed
  | fuel + 1, acc, c :: rest =>
    if c = '"' then .ok (String.ofList acc.reverse, rest)
    else if c = '\\' then do
      let (e, rest) ← escape unicode rest
      stringTail unicode fuel (e :: acc) rest
    else if c.toNat < 0x20 then .error .malformed
    else stringTail unicode fuel (c :: acc) rest

/-- A string after its opening quote. -/
def string (unicode : Reader Char) : Reader String := fun cs => stringTail unicode cs.length [] cs

/-! ### Numbers -/

/-- A number as it is written: sign, digits before and after the point, exponent. -/
structure NumberText where
  negative : Bool
  whole : List Char
  fraction : Option (List Char)
  exponent : Option Int

/-- At least one digit. -/
def digits : Reader (List Char) := fun cs =>
  match cs.takeWhile Char.isDigit with
  | [] => .error .malformed
  | ds => .ok (ds, cs.dropWhile Char.isDigit)

/-- The value of a sequence of digits. -/
def digitsValue (ds : List Char) : Nat := ds.foldl (fun n d => n * 10 + (d.toNat - '0'.toNat)) 0

/-- The digits after a point, if there is one. -/
def fraction : Reader (Option (List Char))
  | '.' :: rest => do
    let (ds, rest) ← digits rest
    .ok (some ds, rest)
  | cs => .ok (none, cs)

/-- The digits of an exponent after its sign. -/
def exponentDigits : Reader Int
  | '-' :: rest => do
    let (ds, rest) ← digits rest
    .ok (-(digitsValue ds : Int), rest)
  | '+' :: rest => do
    let (ds, rest) ← digits rest
    .ok (digitsValue ds, rest)
  | cs => do
    let (ds, rest) ← digits cs
    .ok (digitsValue ds, rest)

/-- The exponent, if there is one. -/
def exponent : Reader (Option Int)
  | c :: rest =>
    if c = 'e' ∨ c = 'E' then do
      let (e, rest) ← exponentDigits rest
      .ok (some e, rest)
    else .ok (none, c :: rest)
  | [] => .ok (none, [])

/-- A number without its sign.  A zero at the front stands alone. -/
def unsignedText (negative : Bool) : Reader NumberText := fun cs => do
  let (whole, rest) ← digits cs
  if whole.head? = some '0' ∧ whole.length ≠ 1 then .error .malformed
  else
    let (frac, rest) ← fraction rest
    let (exp, rest) ← exponent rest
    .ok (⟨negative, whole, frac, exp⟩, rest)

/-- A number as it is written. -/
def numberText : Reader NumberText
  | '-' :: rest => unsignedText true rest
  | cs => unsignedText false cs

/-- The number that the digits of `ds` make after `n`, up to the first that would take it out of 64 bits, and how many
digits are left. -/
def leadingDigits (n : Nat) : List Char → Nat × Nat
  | [] => (n, 0)
  | d :: ds =>
    let next := n * 10 + (d.toNat - '0'.toNat)
    if next < 0x10000000000000000 then leadingDigits next ds else (n, ds.length + 1)

/-- A written number as a double: its leading digits, as many as 64 bits hold, scaled by a power of ten.  Digits left
out before the point count for the exponent. -/
def NumberText.float? (t : NumberText) : Option Number :=
  let frac := t.fraction.getD []
  let (n, wholeLeft) := leadingDigits 0 t.whole
  let (n, fracLeft) := leadingDigits n frac
  (Binary64.ofScaled t.negative n (t.exponent.getD 0 + wholeLeft - (frac.length - fracLeft : Nat))).map .float

/-- The value of a written number.  Without point and exponent it is whole where 64 bits hold it, except that `-0` is
the negative zero of the doubles; everything else is a double, if it is in their range. -/
def NumberText.value? (t : NumberText) : Option Number :=
  if t.fraction.isSome || t.exponent.isSome then t.float?
  else
    let n : Int := digitsValue t.whole
    if t.negative && n == 0 then t.float?
    else
      let signed := if t.negative then -n else n
      if h : -0x8000000000000000 ≤ signed ∧ signed < 0x10000000000000000 then some (.int signed h) else t.float?

/-- A number. -/
def number : Reader Number := fun cs => do
  let (t, rest) ← numberText cs
  match t.value? with
  | some n => .ok (n, rest)
  | none => .error .malformed

/-! ### Lists between brackets -/

/-- The items of a list from one on, up to and including the closing bracket. -/
def moreItems {σ : Type} (close : Char) (item : σ → Reader σ) : Nat → σ → Reader σ
  | 0, _, _ => .error .malformed
  | fuel + 1, s, cs => do
    let (s, rest) ← item s (skipSpace cs)
    match skipSpace rest with
    | [] => .error .malformed
    | c :: rest =>
      if c = ',' then moreItems close item fuel s rest
      else if c = close then .ok (s, rest)
      else .error .malformed

/-- The items of a list after its opening bracket: each takes the result so far to the next. -/
def enclosed {σ : Type} (close : Char) (item : σ → Reader σ) (start : σ) : Reader σ := fun cs =>
  match skipSpace cs with
  | [] => .error .malformed
  | c :: rest => if c = close then .ok (start, rest) else moreItems close item cs.length start (c :: rest)

/-- One more value of a list kept in reverse. -/
def pushItem {α : Type} (item : Reader α) (acc : List α) : Reader (List α) := fun cs => do
  let (v, rest) ← item cs
  .ok (v :: acc, rest)

/-- The key of a member and the colon after it; what follows is at the value. -/
def memberKey (unicode : Reader Char) : Reader String
  | '"' :: rest => do
    let (key, rest) ← string unicode rest
    let rest ← expect [':'] (skipSpace rest)
    .ok (key, skipSpace rest)
  | _ => .error .malformed

/-- A member of an object. -/
def member {α : Type} (item : Reader α) : Reader (String × α) := fun cs => do
  let (key, rest) ← memberKey unicodeEscape cs
  let (v, rest) ← item rest
  .ok ((key, v), rest)

/-- The items of an array after its opening bracket. -/
def items {α : Type} (item : Reader α) : Reader (List α) := fun cs => do
  let (acc, rest) ← enclosed ']' (pushItem item) [] cs
  .ok (acc.reverse, rest)

/-- The members of an object after its opening bracket, in the order of the text. -/
def members {α : Type} (item : Reader α) : Reader (List (String × α)) := fun cs => do
  let (acc, rest) ← enclosed '}' (pushItem (member item)) [] cs
  .ok (acc.reverse, rest)

/-! ### Values -/

/-- A value that begins right here, the two kinds of lists left to the given readers. -/
def valueWith (array object : Reader Json) : Reader Json
  | 'n' :: rest => do
    let rest ← expect ['u', 'l', 'l'] rest
    .ok (.null, rest)
  | 't' :: rest => do
    let rest ← expect ['r', 'u', 'e'] rest
    .ok (.bool true, rest)
  | 'f' :: rest => do
    let rest ← expect ['a', 'l', 's', 'e'] rest
    .ok (.bool false, rest)
  | '"' :: rest => do
    let (s, rest) ← string unicodeEscape rest
    .ok (.str s, rest)
  | '[' :: rest => array rest
  | '{' :: rest => object rest
  | cs => do
    let (n, rest) ← number cs
    .ok (.num n, rest)

/-- A value that is neither an array nor an object. -/
def scalar : Reader Json := valueWith refuse refuse

/-- The key that marks embedded text.  An object that begins with it has no other member, and stands for the value
whose text is the string under that key. -/
def embeddedKey : String := "$serde_json::private::RawValue"

/-- What follows the first key of an object and its colon, if that key marks embedded text. -/
def afterEmbeddedKey? (cs : List Char) : Option (List Char) :=
  match memberKey unicodeEscape (skipSpace cs) with
  | .ok (key, rest) => if key = embeddedKey then some rest else none
  | .error _ => none

/-- The string that holds an embedded text, read by `embedded`, and the end of the object around it. -/
def embeddedText (embedded : List Char → Except Fault Json) : Reader Json
  | '"' :: rest => do
    let (s, rest) ← string unicodeEscape rest
    let v ← embedded s.toList
    let rest ← expect ['}'] (skipSpace rest)
    .ok (v, rest)
  | _ => .error .malformed

/-- What an object stands for, after its opening bracket. -/
def objectTail (embedded : List Char → Except Fault Json) (item : Reader Json) : Reader Json := fun cs =>
  match afterEmbeddedKey? cs with
  | some rest => embeddedText embedded rest
  | none => do
    let (ms, rest) ← members item cs
    .ok (Json.object ms, rest)

/-- A value that opens at most the given number of arrays and objects inside each other.  Embedded texts are read by
`embedded`. -/
def value (embedded : List Char → Except Fault Json) : Nat → Reader Json
  | 0 => scalar
  | depth + 1 =>
    valueWith
      (fun cs => do
        let (vs, rest) ← items (value embedded depth) cs
        .ok (.arr vs, rest))
      (objectTail embedded (value embedded depth))

/-- The most arrays and objects that may be open at once.  An embedded text is counted by itself. -/
def maxDepth : Nat := 127

/-- What a whole text holds: one item, blanks around it, and nothing else. -/
def document {α : Type} (item : Reader α) (cs : List Char) : Except Fault α := do
  let (v, rest) ← item (skipSpace cs)
  if skipSpace rest = [] then .ok v else .error .malformed

/-- The value that a whole text holds, fewer than `layers` texts being embedded in each other.  A text is longer than
those embedded in it, so its length is enough. -/
def layered : Nat → List Char → Except Fault Json
  | 0, _ => .error .malformed
  | layers + 1, cs => document (value (layered layers) maxDepth) cs

/-- A value. -/
def anyValue : Reader Json := fun cs => value (layered cs.length) maxDepth cs

/-- What a whole byte sequence holds.  Bytes that are not UTF-8 end the text where they begin, and no item may be
followed by them. -/
def documentBytes {α : Type} (item : Reader α) (bs : List UInt8) : Except Fault α :=
  let (cs, sound) := Text.Utf8.decodeSound bs
  match document item cs with
  | .ok v => if sound then .ok v else .error .malformed
  | .error fault => .error fault

/-- The value that a text holds. -/
def read? (cs : List Char) : Option Json := (document anyValue cs).toOption

/-- The value that a string holds. -/
def parse? (s : String) : Option Json := read? s.toList

/-- The value that a byte sequence holds. -/
def ofBytes? (bs : List UInt8) : Option Json := (documentBytes anyValue bs).toOption

end ApiClient.Json
