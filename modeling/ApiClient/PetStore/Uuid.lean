import ApiClient.Text.Fold
import ApiClient.Text.Hex

/-!
# Identifiers

A 128-bit identifier as its 32 hexadecimal digits.  It is written in lower case with hyphens after 8, 12, 16 and 20
digits.  It is read in that form, without the hyphens, with braces around the hyphenated form, or with `urn:uuid:`
before it, the digits and the letters of `urn:uuid:` in any case.
-/

namespace ApiClient.PetStore

/-- A 128-bit identifier. -/
structure Uuid where
  digits : List (Fin 16)
  length_eq : digits.length = 32
  deriving DecidableEq

namespace Uuid

/-- The identifier with the last 32 digits of a number in base 16. -/
def ofNat (n : Nat) : Uuid := ⟨(List.range 32).reverse.map fun i => Fin.ofNat 16 (n >>> (4 * i)), by simp⟩

/-- The sizes of the groups between hyphens. -/
def groupSizes : List Nat := [8, 4, 4, 4, 12]

/-- Characters in groups of the given sizes with a hyphen between each two. -/
def group : List Nat → List Char → List Char
  | [], cs => cs
  | [_], cs => cs
  | n :: sizes, cs => cs.take n ++ '-' :: group sizes (cs.drop n)

/-- The characters of groups of the given sizes with a hyphen between each two. -/
def ungroup? : List Nat → List Char → Option (List Char)
  | [], cs => if cs.isEmpty then some [] else none
  | [n], cs => if cs.length = n then some cs else none
  | n :: sizes, cs =>
    match cs.drop n with
    | '-' :: rest => (ungroup? sizes rest).map fun tail => cs.take n ++ tail
    | _ => none

/-- An identifier as text. -/
def toString (u : Uuid) : String :=
  String.ofList (group groupSizes (u.digits.map fun (d : Fin 16) => Text.Hex.lowerDigit d))

/-- The identifier of 32 digits. -/
def ofDigits? (cs : List Char) : Option Uuid := do
  let digits ← cs.mapM fun c => (Text.Hex.value? c).map (Fin.ofNat 16)
  if h : digits.length = 32 then some ⟨digits, h⟩ else none

/-- The identifier of digits with hyphens. -/
def ofHyphenated? (cs : List Char) : Option Uuid := ungroup? groupSizes cs >>= ofDigits?

/-- What stands between braces. -/
def unbrace? : List Char → Option (List Char)
  | '{' :: rest => if rest.getLast? = some '}' then some rest.dropLast else none
  | _ => none

/-- What stands after the name of the namespace, which may be in any letter case. -/
def unqualify? (cs : List Char) : Option (List Char) :=
  let lead := "urn:uuid:"
  if Text.SameName (String.ofList (cs.take lead.length)) lead then some (cs.drop lead.length) else none

/-- The identifier that a text is a form of. -/
def parse? (s : String) : Option Uuid :=
  let cs := s.toList
  (ofDigits? cs).or ((ofHyphenated? cs).or ((unbrace? cs >>= ofHyphenated?).or (unqualify? cs >>= ofHyphenated?)))

end Uuid

end ApiClient.PetStore
