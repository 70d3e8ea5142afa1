/-!
# Lenient UTF-8

`decodeLossy` reads bytes as UTF-8 and puts the replacement character U+FFFD for what is malformed:
one for each longest run of bytes that could begin a character but does not complete one.
-/

namespace TypeLens.Text

/-- The character that stands for malformed bytes. -/
def replacement : Char := Char.ofNat 0xFFFD

/-- The number of bytes that follow a leading byte, with the least and the greatest value of the
first of them. -/
def followers? (b : Nat) : Option (Nat × Nat × Nat) :=
  if 0xC2 ≤ b ∧ b ≤ 0xDF then some (1, 0x80, 0xBF)
  else if b = 0xE0 then some (2, 0xA0, 0xBF)
  else if b = 0xED then some (2, 0x80, 0x9F)
  else if 0xE1 ≤ b ∧ b ≤ 0xEF then some (2, 0x80, 0xBF)
  else if b = 0xF0 then some (3, 0x90, 0xBF)
  else if b = 0xF4 then some (3, 0x80, 0x8F)
  else if 0xF1 ≤ b ∧ b ≤ 0xF3 then some (3, 0x80, 0xBF)
  else none

/-- The bits a leading byte contributes, by the number of bytes that follow it. -/
def leadBits (following b : Nat) : Nat :=
  match following with
  | 1 => b % 32
  | 2 => b % 16
  | _ => b % 8

/-- A character that is being read. -/
structure Partial where
  /-- The bits read so far. -/
  bits : Nat
  /-- The number of bytes still to come. -/
  missing : Nat
  /-- The least value of the next byte. -/
  least : Nat
  /-- The greatest value of the next byte. -/
  greatest : Nat
deriving Repr, DecidableEq

/-- Reads a byte that begins a character: the text so far grows, or a longer character is begun. -/
def beginChar (b : Nat) : List Char × Option Partial :=
  if b < 0x80 then ([Char.ofNat b], none)
  else
    match followers? b with
    | some (n, least, greatest) => ([], some ⟨leadBits n b, n, least, greatest⟩)
    | none => ([replacement], none)

/-- Reads one byte. -/
def readByte : Option Partial → Nat → List Char × Option Partial
  | none, b => beginChar b
  | some p, b =>
    if p.least ≤ b ∧ b ≤ p.greatest then
      let bits := p.bits * 64 + b % 64
      if p.missing ≤ 1 then ([Char.ofNat bits], none)
      else ([], some ⟨bits, p.missing - 1, 0x80, 0xBF⟩)
    else
      let (text, next) := beginChar b
      (replacement :: text, next)

/-- Reads the bytes that follow a character begun. -/
def decodeFrom : Option Partial → List Nat → List Char
  | none, [] => []
  | some _, [] => [replacement]
  | state, b :: bs =>
    let (text, next) := readByte state b
    text ++ decodeFrom next bs

/-- Reads bytes as UTF-8, with replacement characters for what is malformed. -/
def decodeLossy (bytes : List Nat) : List Char :=
  decodeFrom none bytes

end TypeLens.Text
