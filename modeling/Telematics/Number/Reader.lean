import Telematics.Number.Word
import Telematics.Text.Blank

/-!
# Numbers in text

Whole numbers are an optional sign and digits, and must lie within bounds. Floating-point numbers
are an optional sign and either digits with an optional point and exponent, or one of the words
`inf`, `infinity` and `nan` in any case; a decimal is rounded to the nearest floating-point number.
-/

set_option autoImplicit false

namespace Telematics.Number

/-- Why a text is no whole number of its range. -/
inductive WholeFault where
  /-- There is no text. -/
  | empty
  /-- A character is no digit, or there is only a sign. -/
  | badDigit
  /-- The number lies above the range. -/
  | tooLarge
  /-- The number lies below the range. -/
  | tooSmall
deriving DecidableEq

/-- The words of a fault. -/
def WholeFault.message : WholeFault → String
  | empty => "cannot parse integer from empty string"
  | badDigit => "invalid digit found in string"
  | tooLarge => "number too large to fit in target type"
  | tooSmall => "number too small to fit in target type"

/-- Reads digits onto `n` up to a bound; the first fault from the left is the one reported. -/
def readDigits (most : Nat) (beyond : WholeFault) : Nat → List Char → Except WholeFault Nat
  | n, [] => .ok n
  | n, c :: cs =>
    match Text.digit? c with
    | none => .error .badDigit
    | some d => if 10 * n + d ≤ most then readDigits most beyond (10 * n + d) cs else .error beyond

/-- Reads a whole number from zero to a bound. -/
def readNat (most : Nat) (s : String) : Except WholeFault Nat :=
  match s.toList with
  | [] => .error .empty
  | ['+'] => .error .badDigit
  | '+' :: cs => readDigits most .tooLarge 0 cs
  | cs => readDigits most .tooLarge 0 cs

/-- Reads a whole number of 64 bits with a sign. -/
def readInt64 (s : String) : Except WholeFault Int :=
  match s.toList with
  | [] => .error .empty
  | ['+'] => .error .badDigit
  | ['-'] => .error .badDigit
  | '-' :: cs => do
    let n ← readDigits leastInt64.natAbs .tooSmall 0 cs
    pure (-(n : Int))
  | '+' :: cs => do
    let n ← readDigits mostInt64.natAbs .tooLarge 0 cs
    pure (n : Int)
  | cs => do
    let n ← readDigits mostInt64.natAbs .tooLarge 0 cs
    pure (n : Int)

/-- Why a text is no floating-point number. -/
inductive FloatFault where
  /-- There is no text. -/
  | empty
  /-- The text has another form. -/
  | malformed
deriving DecidableEq

/-- The words of a fault. -/
def FloatFault.message : FloatFault → String
  | empty => "cannot parse float from empty string"
  | malformed => "invalid float literal"

/-- The number that digits write after `n`, how many there are, and the text after them. -/
def takeDigits : Nat → Nat → List Char → Nat × Nat × List Char
  | n, count, [] => (n, count, [])
  | n, count, c :: cs =>
    match Text.digit? c with
    | some d => takeDigits (10 * n + d) (count + 1) cs
    | none => (n, count, c :: cs)

/-- The floating-point number nearest to `digits * 10 ^ exponent`. -/
def ofDecimal (digits : Nat) (exponent : Int) : Float :=
  if 0 ≤ exponent then Float.ofScientific digits false exponent.toNat
  else Float.ofScientific digits true (-exponent).toNat

/-- An optional exponent at the end of a text. -/
def readExponent : List Char → Option Int
  | [] => some 0
  | c :: cs =>
    if c = 'e' ∨ c = 'E' then
      let (negative, cs) :=
        match cs with
        | '-' :: rest => (true, rest)
        | '+' :: rest => (false, rest)
        | _ => (false, cs)
      match takeDigits 0 0 cs with
      | (n, count, rest) =>
        if count = 0 ∨ ¬ rest.isEmpty then none else some (if negative then -(n : Int) else n)
    else none

/-- A number without its sign. -/
def readMagnitude (cs : List Char) : Option Float :=
  let word := (String.ofList cs).map Char.toLower
  if word = "inf" ∨ word = "infinity" then some (1.0 / 0.0)
  else if word = "nan" then some (0.0 / 0.0)
  else
    match takeDigits 0 0 cs with
    | (whole, wholeCount, rest) =>
      let (digits, places, rest) :=
        match rest with
        | '.' :: tail => takeDigits whole 0 tail
        | _ => (whole, 0, rest)
      if wholeCount + places = 0 then none
      else (readExponent rest).map fun e => ofDecimal digits (e - (places : Int))

/-- Reads a floating-point number. -/
def readFloat (s : String) : Except FloatFault Float :=
  match s.toList with
  | [] => .error .empty
  | '-' :: cs => ((readMagnitude cs).map fun x => -x).elim (.error .malformed) .ok
  | '+' :: cs => (readMagnitude cs).elim (.error .malformed) .ok
  | cs => (readMagnitude cs).elim (.error .malformed) .ok

end Telematics.Number
