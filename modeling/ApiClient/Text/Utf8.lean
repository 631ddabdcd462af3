/-!
# UTF-8

Characters as bytes and back.  Reading is a machine that takes one byte at a time: its state is what the character
begun so far still owes, and each step puts out the characters and broken pieces that the byte completes.  A broken
piece is a longest run of bytes that begins some character without finishing it, or a single byte that begins none.
Overlong forms, surrogates and values above U+10FFFF begin nothing, because the range of the second byte depends on
the first.
-/

namespace ApiClient.Text.Utf8

/-! ### Writing -/

/-- The bytes of one character. -/
def encodeChar (c : Char) : List UInt8 :=
  let n := c.toNat
  if n < 0x80 then [UInt8.ofNat n]
  else if n < 0x800 then [UInt8.ofNat (0xC0 + n / 64), UInt8.ofNat (0x80 + n % 64)]
  else if n < 0x10000 then
    [UInt8.ofNat (0xE0 + n / 4096), UInt8.ofNat (0x80 + n / 64 % 64), UInt8.ofNat (0x80 + n % 64)]
  else
    [UInt8.ofNat (0xF0 + n / 262144), UInt8.ofNat (0x80 + n / 4096 % 64), UInt8.ofNat (0x80 + n / 64 % 64),
      UInt8.ofNat (0x80 + n % 64)]

/-- The bytes of a sequence of characters. -/
def encode (cs : List Char) : List UInt8 := cs.flatMap encodeChar

/-- The bytes of a text. -/
def bytes (s : String) : List UInt8 := encode s.toList

/-! ### Reading -/

/-- A character begun but not finished: `owed` more bytes, the next of them from `low` to `high`, and the value of
the bits read so far. -/
structure Pending where
  owed : Nat
  low : Nat
  high : Nat
  value : Nat
  deriving DecidableEq

/-- What a byte at the start of a character means. -/
inductive Start where
  /-- A character of its own. -/
  | whole (value : Nat)
  /-- The first byte of a longer character. -/
  | begun (pending : Pending)
  /-- No character starts with this byte. -/
  | broken
  deriving DecidableEq

/-- The meaning of byte `n` at the start of a character. -/
def start (n : Nat) : Start :=
  if n < 0x80 then .whole n
  else if n < 0xC2 then .broken
  else if n < 0xE0 then .begun ⟨1, 0x80, 0xBF, n - 0xC0⟩
  else if n = 0xE0 then .begun ⟨2, 0xA0, 0xBF, 0⟩
  else if n = 0xED then .begun ⟨2, 0x80, 0x9F, 13⟩
  else if n < 0xF0 then .begun ⟨2, 0x80, 0xBF, n - 0xE0⟩
  else if n = 0xF0 then .begun ⟨3, 0x90, 0xBF, 0⟩
  else if n < 0xF4 then .begun ⟨3, 0x80, 0xBF, n - 0xF0⟩
  else if n = 0xF4 then .begun ⟨3, 0x80, 0x8F, 4⟩
  else .broken

/-- What reading puts out: a character, or `none` for a broken piece. -/
abbrev Piece := Option Char

/-- A byte read between characters. -/
def stepFirst (b : UInt8) : List Piece × Option Pending :=
  match start b.toNat with
  | .whole n => ([some (Char.ofNat n)], none)
  | .begun p => ([], some p)
  | .broken => ([none], none)

/-- A byte read in any state.  One that cannot continue the character begun breaks it off and is read afresh. -/
def step (b : UInt8) : Option Pending → List Piece × Option Pending
  | none => stepFirst b
  | some p =>
    if p.low ≤ b.toNat ∧ b.toNat ≤ p.high then
      let value := p.value * 64 + (b.toNat - 0x80)
      if p.owed ≤ 1 then ([some (Char.ofNat value)], none) else ([], some ⟨p.owed - 1, 0x80, 0xBF, value⟩)
    else
      let next := stepFirst b
      (none :: next.1, next.2)

/-- All that reading `bs` puts out from a state.  A character unfinished at the end is a broken piece. -/
def piecesFrom (state : Option Pending) : List UInt8 → List Piece
  | [] => if state.isSome then [none] else []
  | b :: rest =>
    let next := step b state
    next.1 ++ piecesFrom next.2 rest

/-- The characters and broken pieces of a byte sequence, in order. -/
def pieces (bs : List UInt8) : List Piece := piecesFrom none bs

/-- The character that stands for a broken piece, U+FFFD. -/
def replacement : Char := Char.ofNat 0xFFFD

/-- The text of `bs`, each broken piece replaced by U+FFFD. -/
def decodeLossy (bs : List UInt8) : List Char := (pieces bs).map fun p => p.getD replacement

/-- The text before the first broken piece of `bs`, and whether there is no such piece. -/
def decodeSound (bs : List UInt8) : List Char × Bool :=
  let all := pieces bs
  ((all.takeWhile Option.isSome).filterMap id, all.all Option.isSome)

/-- The text of `bs`, if no piece of it is broken. -/
def decode? (bs : List UInt8) : Option (List Char) :=
  match decodeSound bs with
  | (cs, true) => some cs
  | (_, false) => none

end ApiClient.Text.Utf8
