import Telematics.Number.Word

/-!
# White space

The characters of the Unicode property `White_Space`, and a text without those it starts with.
-/

set_option autoImplicit false

namespace Telematics.Text

/-- The Unicode property `White_Space`. -/
def isBlank (c : Char) : Bool :=
  let n := c.toNat
  (9 ≤ n && n ≤ 13) || n == 0x20 || n == 0x85 || n == 0xA0 || n == 0x1680 ||
    (0x2000 ≤ n && n ≤ 0x200A) || n == 0x2028 || n == 0x2029 || n == 0x202F || n == 0x205F ||
    n == 0x3000

/-- A text without its leading white space. -/
def skipBlank (cs : List Char) : List Char := cs.dropWhile isBlank

/-- The value of an ASCII digit. -/
def digit? (c : Char) : Option Nat :=
  if '0'.toNat ≤ c.toNat ∧ c.toNat ≤ '9'.toNat then some (c.toNat - '0'.toNat) else none

/-- ASCII capitals become small letters; every other character stays. -/
def lowerAscii (s : String) : String := s.map Char.toLower

/-- The last `width` decimal digits of a number, most significant first. -/
def decimalDigits : Nat → Nat → List Char
  | 0, _ => []
  | width + 1, n => decimalDigits width (n / 10) ++ [Char.ofNat ('0'.toNat + n % 10)]

/-- A number with exactly `width` digits, or more where it needs them. -/
def padded (width n : Nat) : String :=
  if n < Number.tenTo width then String.ofList (decimalDigits width n) else toString n

end Telematics.Text
