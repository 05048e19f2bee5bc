import Telematics.Number.Word
import Telematics.Text.Blank

/-!
# JSON values

A JSON text is read into a value that keeps what its literals say: numbers keep their digits, so
that a whole number can be told from one with a fraction, and objects keep all members in order, so
that repeated names can be refused. A string literal may hold an escape of half a character; it then
has no text, which only matters to a reader who wants the text.
-/

set_option autoImplicit false

namespace Telematics

/-- A number as it is written. -/
structure NumberLiteral where
  /-- It starts with a minus sign. -/
  negative : Bool
  /-- The digits before the point. -/
  whole : List Nat
  /-- The digits after the point; empty if there is none. -/
  fraction : List Nat
  /-- The exponent, if there is one. -/
  exponent : Option Int
deriving DecidableEq

/-- A JSON value. -/
inductive Json where
  | null
  | bool (b : Bool)
  | number (n : NumberLiteral)
  /-- A string; none if it has no text. -/
  | text (s : Option String)
  | array (items : List Json)
  /-- An object; a name is none if it has no text. -/
  | object (members : List (Option String × Json))

namespace NumberLiteral

/-- The number that digits write. -/
def digitsValue (digits : List Nat) : Nat := digits.foldl (fun n d => 10 * n + d) 0

/-- The whole number that a literal without fraction and exponent writes, if it lies within 64 bits
with or without a sign. A minus sign before zero makes it no whole number. -/
def toInt? (n : NumberLiteral) : Option Int :=
  if n.fraction.isEmpty ∧ n.exponent = none then
    let v := digitsValue n.whole
    if n.negative then if 0 < v ∧ Number.leastInt64 ≤ -(v : Int) then some (-(v : Int)) else none
    else if v ≤ Number.mostNat64 then some (v : Int) else none
  else none

/-- The significant digits of a literal as far as 64 bits hold them, and the power of ten of the
last of them. -/
structure Scaled where
  significand : Nat
  exponent : Int
  /-- A digit was left out. -/
  full : Bool

/-- One more digit before the point: once one did not fit, each counts as a power of ten. -/
def Scaled.addWhole (s : Scaled) (d : Nat) : Scaled :=
  if !s.full && 10 * s.significand + d ≤ Number.mostNat64 then
    { s with significand := 10 * s.significand + d }
  else { s with exponent := s.exponent + 1, full := true }

/-- One more digit after the point: once one did not fit, none counts. -/
def Scaled.addFraction (s : Scaled) (d : Nat) : Scaled :=
  if !s.full && 10 * s.significand + d ≤ Number.mostNat64 then
    { s with significand := 10 * s.significand + d, exponent := s.exponent - 1 }
  else { s with full := true }

/-- The significant digits and the power of ten of a literal. -/
def scaled (n : NumberLiteral) : Scaled :=
  let whole := n.whole.foldl Scaled.addWhole ⟨0, 0, false⟩
  let all := n.fraction.foldl Scaled.addFraction { whole with full := false }
  { all with exponent := all.exponent + n.exponent.getD 0 }

/-- The floating-point number nearest to a power of ten. -/
def powerOfTen (n : Nat) : Float := Float.ofScientific 1 false n

/-- A number divided by a power of ten, in steps that floating-point numbers can hold. -/
def divideByPower (x : Float) (n : Nat) : Float :=
  if n ≤ 308 then x / powerOfTen n
  else if x == 0.0 then x
  else divideByPower (x / powerOfTen 308) (n - 308)
termination_by n

/-- A number scaled by a power of ten; none if the result is infinite. -/
def scaleBy (x : Float) (exponent : Int) : Option Float :=
  if exponent < 0 then some (divideByPower x exponent.natAbs)
  else if x == 0.0 then some x
  else if exponent ≤ 308 then
    let y := x * powerOfTen exponent.toNat
    if y.isInf then none else some y
  else none

/-- The floating-point number of a literal: its significant digits, scaled once; none if it is out
of range. -/
def toFloat? (n : NumberLiteral) : Option Float :=
  let s := n.scaled
  (scaleBy (Float.ofNat s.significand) s.exponent).map fun x => if n.negative then -x else x

end NumberLiteral

end Telematics
