/-!
# Text in bytes

`decodeLossy` reads bytes as UTF-8 (RFC 3629). Where bytes cannot go on to spell a character, the
longest part that could have begun one becomes a single replacement character, and reading goes on
at the byte that did not fit.
-/

set_option autoImplicit false

namespace Telematics.Text

/-- The character that stands for bytes that spell none. -/
def replacement : Char := '\ufffd'

/-- A byte that goes on with a character. -/
def isTail (b : Nat) : Bool := 0x80 ≤ b && b ≤ 0xBF

/-- For the first byte of a longer character: the bits it gives, the number of bytes to follow, and
the bounds of the next one. -/
def leadByte? (b : Nat) : Option (Nat × Nat × Nat × Nat) :=
  if 0xC2 ≤ b ∧ b ≤ 0xDF then some (b - 0xC0, 1, 0x80, 0xBF)
  else if b = 0xE0 then some (0, 2, 0xA0, 0xBF)
  else if b = 0xED then some (0xD, 2, 0x80, 0x9F)
  else if 0xE1 ≤ b ∧ b ≤ 0xEF then some (b - 0xE0, 2, 0x80, 0xBF)
  else if b = 0xF0 then some (0, 3, 0x90, 0xBF)
  else if b = 0xF4 then some (4, 3, 0x80, 0x8F)
  else if 0xF1 ≤ b ∧ b ≤ 0xF3 then some (b - 0xF0, 3, 0x80, 0xBF)
  else none

/-- A character that has begun. -/
structure Partial where
  bits : Nat
  /-- The number of bytes still to come, less one. -/
  missing : Nat
  /-- The least next byte. -/
  low : Nat
  /-- The greatest next byte. -/
  high : Nat

/-- A byte at which no character has begun: a character, the beginning of one, or neither. -/
def startChar (b : Nat) : List Char × Option Partial :=
  if b < 0x80 then ([Char.ofNat b], none)
  else
    match leadByte? b with
    | some (bits, count, low, high) => ([], some ⟨bits, count - 1, low, high⟩)
    | none => ([replacement], none)

/-- The next byte: the characters it completes or spoils, and the character that has begun. -/
def feed (begun : Option Partial) (b : Nat) : List Char × Option Partial :=
  match begun with
  | none => startChar b
  | some p =>
    if p.low ≤ b ∧ b ≤ p.high then
      let bits := p.bits * 64 + (b - 0x80)
      match p.missing with
      | 0 => ([Char.ofNat bits], none)
      | n + 1 => ([], some ⟨bits, n, 0x80, 0xBF⟩)
    else
      let (cs, begun) := startChar b
      (replacement :: cs, begun)

/-- The characters of bytes; `begun` is the character that has begun before them. -/
def decodeFrom (begun : Option Partial) : List UInt8 → List Char
  | [] => if begun.isSome then [replacement] else []
  | b :: bytes =>
    let (cs, begun) := feed begun b.toNat
    cs ++ decodeFrom begun bytes

/-- The text of bytes. -/
def decodeLossy (bytes : List UInt8) : String := String.ofList (decodeFrom none bytes)

end Telematics.Text
