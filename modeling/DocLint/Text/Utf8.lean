import DocLint.Text.Basic

/-!
# UTF-8

File contents are bytes. `Utf8.decode` reads them as UTF-8 and puts U+FFFD in the place of each
longest byte sequence that starts like a character and cannot be completed; `Utf8.decode?` reads
only sequences without such a place; `Utf8.encode` writes a text.

The reader stands either between characters or inside one. Inside, it knows how many bytes are
still to come, the range of the next one, and the bits read so far.
-/

namespace DocLint

/-- The bytes of a file. -/
abbrev Bytes := List UInt8

namespace Utf8

/-- A character begun: `owed` more bytes after the next one, the next between `low` and `high`,
and the bits so far. -/
structure Partial where
  owed : Nat
  low : Nat
  high : Nat
  bits : Nat

/-- What the first byte of a character says. -/
inductive Lead where
  | single (c : Char)
  | start (p : Partial)
  | bad

/-- The first byte of a character. -/
def lead (b : Nat) : Lead :=
  if b < 0x80 then .single (Char.ofNat b)
  else if b < 0xC2 then .bad
  else if b < 0xE0 then .start ⟨0, 0x80, 0xBF, b - 0xC0⟩
  else if b < 0xF0 then
    .start ⟨1, if b = 0xE0 then 0xA0 else 0x80, if b = 0xED then 0x9F else 0xBF, b - 0xE0⟩
  else if b < 0xF5 then
    .start ⟨2, if b = 0xF0 then 0x90 else 0x80, if b = 0xF4 then 0x8F else 0xBF, b - 0xF0⟩
  else .bad

/-- One reading of the bytes: `none` marks a place where they are not UTF-8. -/
def read : Option Partial → Bytes → List (Option Char)
  | none, [] => []
  | some _, [] => [none]
  | none, b :: bs =>
    match lead b.toNat with
    | .single c => some c :: read none bs
    | .start p => read (some p) bs
    | .bad => none :: read none bs
  | some p, b :: bs =>
    let n := b.toNat
    if p.low ≤ n ∧ n ≤ p.high then
      let bits := p.bits * 64 + (n - 0x80)
      match p.owed with
      | 0 => some (Char.ofNat bits) :: read none bs
      | k + 1 => read (some ⟨k, 0x80, 0xBF, bits⟩) bs
    else
      -- the character is given up before this byte, which starts anew
      none :: match lead n with
        | .single c => some c :: read none bs
        | .start q => read (some q) bs
        | .bad => none :: read none bs

/-- The text of the bytes, U+FFFD in each bad place. -/
def decode (bs : Bytes) : Text := (read none bs).map fun c => c.getD '\uFFFD'

/-- The text of the bytes, if they are UTF-8. -/
def decode? (bs : Bytes) : Option Text := (read none bs).mapM id

/-- The bytes of a character. -/
def encodeChar (c : Char) : Bytes :=
  let n := c.toNat
  if n < 0x80 then [n.toUInt8]
  else if n < 0x800 then [(0xC0 + n / 64).toUInt8, (0x80 + n % 64).toUInt8]
  else if n < 0x10000 then
    [(0xE0 + n / 4096).toUInt8, (0x80 + n / 64 % 64).toUInt8, (0x80 + n % 64).toUInt8]
  else
    [(0xF0 + n / 262144).toUInt8, (0x80 + n / 4096 % 64).toUInt8, (0x80 + n / 64 % 64).toUInt8,
     (0x80 + n % 64).toUInt8]

/-- The bytes of a text. -/
def encode (t : Text) : Bytes := t.flatMap encodeChar

end Utf8

end DocLint
