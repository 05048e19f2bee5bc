import Telematics.Text.Utf8

/-!
# Form fields

The query of a URL is a list of fields `name=value` between ampersands; empty pieces are passed
over, and a piece without an equals sign is a name with an empty value. In names and values a plus
sign is a blank, and a percent sign with two hexadecimal digits is a byte.
-/

set_option autoImplicit false

namespace Telematics.Http

/-- The value of a hexadecimal digit. -/
def hexDigit? (b : UInt8) : Option UInt8 :=
  if 0x30 ≤ b ∧ b ≤ 0x39 then some (b - 0x30)
  else if 0x41 ≤ b ∧ b ≤ 0x46 then some (b - 0x37)
  else if 0x61 ≤ b ∧ b ≤ 0x66 then some (b - 0x57)
  else none

/-- The byte that two hexadecimal digits write. -/
def hexPair? (high low : UInt8) : Option UInt8 :=
  match hexDigit? high, hexDigit? low with
  | some h, some l => some (16 * h + l)
  | _, _ => none

/-- A plus sign is a blank. -/
def plusToBlank (b : UInt8) : UInt8 := if b = 0x2B then 0x20 else b

/-- The bytes that a piece of a query writes. -/
def percentDecode : List UInt8 → List UInt8
  | [] => []
  | b :: high :: low :: rest =>
    if b = 0x25 then
      match hexPair? high low with
      | some decoded => decoded :: percentDecode rest
      | none => b :: percentDecode (high :: low :: rest)
    else plusToBlank b :: percentDecode (high :: low :: rest)
  | b :: rest => plusToBlank b :: percentDecode rest

/-- The text that a piece of a query writes. -/
def decodePiece (bytes : List UInt8) : String := Text.decodeLossy (percentDecode bytes)

/-- A field of a form. -/
structure Field where
  name : String
  value : String
deriving DecidableEq

/-- The field that a piece between ampersands writes. -/
def fieldOf (piece : List UInt8) : Field :=
  ⟨decodePiece (piece.takeWhile fun b => b != 0x3D),
    decodePiece ((piece.dropWhile fun b => b != 0x3D).drop 1)⟩

/-- The pieces between ampersands. -/
def pieces : List UInt8 → List (List UInt8)
  | [] => [[]]
  | b :: rest =>
    if b = 0x26 then [] :: pieces rest
    else
      match pieces rest with
      | [] => [[b]]
      | piece :: others => (b :: piece) :: others

/-- The fields of a query, in order. -/
def fieldsOf (query : String) : List Field :=
  ((pieces query.toUTF8.toList).filter fun piece => !piece.isEmpty).map fieldOf

end Telematics.Http
