import ApiClient.Json.Basic
import ApiClient.Binary64.Notation
import ApiClient.Text.Hex

/-!
# JSON text

Compact text of a value: no space anywhere, members in the order of the list.  In a string the quote, the backslash
and the characters below U+0020 are escaped, the latter by a letter where there is one; everything else stands for
itself.
-/

namespace ApiClient.Json

/-- The letter that stands for a control character after a backslash. -/
def escapeLetter? (c : Char) : Option Char :=
  if c = '\x08' then some 'b'
  else if c = '\x0c' then some 'f'
  else if c = '\n' then some 'n'
  else if c = '\r' then some 'r'
  else if c = '\t' then some 't'
  else none

/-- A character inside a string. -/
def escapeChar (c : Char) : List Char :=
  if c = '"' ∨ c = '\\' then ['\\', c]
  else if c.toNat < 0x20 then
    match escapeLetter? c with
    | some letter => ['\\', letter]
    | none => ['\\', 'u', '0', '0', Text.Hex.lowerDigit (c.toNat / 16), Text.Hex.lowerDigit (c.toNat % 16)]
  else [c]

/-- A string in quotes. -/
def printStr (s : String) : List Char := '"' :: s.toList.flatMap escapeChar ++ ['"']

/-- A number: whole ones in decimal, doubles with the fewest digits that read back. -/
def printNumber : Number → List Char
  | .int n _ => if n < 0 then '-' :: Nat.toDigits 10 n.natAbs else Nat.toDigits 10 n.natAbs
  | .float x => x.print

mutual
/-- The text of a value. -/
def print : Json → List Char
  | .null => ['n', 'u', 'l', 'l']
  | .bool true => ['t', 'r', 'u', 'e']
  | .bool false => ['f', 'a', 'l', 's', 'e']
  | .num n => printNumber n
  | .str s => printStr s
  | .arr [] => ['[', ']']
  | .arr (v :: rest) => '[' :: print v ++ printItems rest
  | .obj [] => ['{', '}']
  | .obj ((k, v) :: rest) => '{' :: printStr k ++ ':' :: print v ++ printMembers rest

/-- The items of an array after the first, and its end. -/
def printItems : List Json → List Char
  | [] => [']']
  | v :: rest => ',' :: print v ++ printItems rest

/-- The members of an object after the first, and its end. -/
def printMembers : List (String × Json) → List Char
  | [] => ['}']
  | (k, v) :: rest => ',' :: printStr k ++ ':' :: print v ++ printMembers rest
end

/-- The text of a value as a string. -/
def render (v : Json) : String := String.ofList (print v)

/-- A value as a string, or why it cannot be written.  Nothing in a value keeps it from that. -/
def write (v : Json) : Except String String := .ok v.render

end ApiClient.Json
