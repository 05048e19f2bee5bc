import Telematics.Number.Word
import Telematics.Text.Blank

/-!
# Decimal text of floating-point numbers

A finite number is a whole number of powers of two. `shortest` finds the decimal with the fewest
digits that lies nearer to it than to any other floating-point number, and of two such decimals the
nearer one; all arithmetic is that of whole numbers. `plain` writes that decimal without an
exponent, as messages show numbers.
-/

set_option autoImplicit false

namespace Telematics.Number

/-- The magnitude of a finite number: `mantissa * 2 ^ exponent`. -/
structure Binary where
  /-- The whole number that is scaled. -/
  mantissa : Nat
  /-- The power of two. -/
  exponent : Int
  /-- The next smaller number is only half as far away as the next larger one. -/
  narrowBelow : Bool

/-- The sign bit is set. -/
def isNegative (x : Float) : Bool := x.toBits >>> 63 == 1

/-- The magnitude of a finite number, read off its bits. -/
def Binary.ofFloat (x : Float) : Binary :=
  let bits := x.toBits.toNat
  let stored : Nat := bits / twoTo 52 % twoTo 11
  let fraction := bits % twoTo 52
  if stored = 0 then ⟨fraction, -1074, false⟩
  else ⟨twoTo 52 + fraction, (stored : Int) - 1075, fraction == 0 && stored != 1⟩

/-- A decimal number: `digits * 10 ^ exponent`. -/
structure Decimal where
  /-- The whole number that its digits write. -/
  digits : Nat
  /-- The power of ten of its last digit. -/
  exponent : Int

/-- The number of decimal digits of a whole number. -/
def digitCount (n : Nat) : Nat := (Nat.toDigits 10 n).length

/-- The least power of ten above the fraction `num / den`, as an exponent. -/
def leadingPower (num den : Nat) : Int :=
  let guess : Int := (digitCount num : Int) - (digitCount den : Int)
  let below := if 0 ≤ guess then num < den * tenTo guess.toNat else num * tenTo (-guess).toNat < den
  if below then guess else guess + 1

/-- The decimal with `exponent` for its last digit that lies between `low / den` and `high / den`,
the ends included where `closed` says so, and nearest to `num / den`; the larger one of two that are
equally near. -/
def nearestBetween (low num high den : Nat) (closed : Bool) (exponent : Int) : Option Decimal :=
  let scale := if 0 ≤ exponent then tenTo exponent.toNat * den else den
  let shift := if 0 ≤ exponent then 1 else tenTo (-exponent).toNat
  let floor := num * shift / scale
  let inside := fun d : Nat =>
    if closed then low * shift ≤ d * scale && d * scale ≤ high * shift
    else low * shift < d * scale && d * scale < high * shift
  let fromFloor := num * shift - floor * scale
  let toCeiling := (floor + 1) * scale - num * shift
  if inside floor && (!inside (floor + 1) || fromFloor < toCeiling) then some ⟨floor, exponent⟩
  else if inside (floor + 1) then some ⟨floor + 1, exponent⟩
  else none

/-- The decimal with the fewest digits that reads back as the number, of these the nearest. At most
17 digits are ever needed. -/
def Binary.shortest (b : Binary) : Decimal :=
  if b.mantissa = 0 then ⟨0, 0⟩
  else
    -- quarters of the last place, so that the middle between neighbours is whole
    let unit := if 2 ≤ b.exponent then twoTo (b.exponent - 2).toNat else 1
    let den := if 2 ≤ b.exponent then 1 else twoTo (2 - b.exponent).toNat
    let num := 4 * b.mantissa * unit
    let low := (4 * b.mantissa - (if b.narrowBelow then 1 else 2)) * unit
    let high := (4 * b.mantissa + 2) * unit
    let power := leadingPower num den
    let atDigits := fun n : Nat =>
      nearestBetween low num high den (b.mantissa % 2 == 0) (power - (n : Int))
    ((List.range 17).findSome? fun n => atDigits (n + 1)).getD ⟨0, 0⟩

/-- The digits of a decimal with a point where it is due, and no exponent. -/
def Decimal.plain (d : Decimal) : String :=
  if 0 ≤ d.exponent then toString (d.digits * tenTo d.exponent.toNat)
  else
    let places := (-d.exponent).toNat
    let fraction :=
      (Text.decimalDigits places (d.digits % tenTo places)).reverse.dropWhile (· == '0')
    let whole := toString (d.digits / tenTo places)
    if fraction.isEmpty then whole else whole ++ "." ++ String.ofList fraction.reverse

/-- A number in decimal text: the shortest digits that read back, never with an exponent. -/
def plain (x : Float) : String :=
  if x.isNaN then "NaN"
  else
    let magnitude := if x.isInf then "inf" else (Binary.ofFloat x).shortest.plain
    if isNegative x then "-" ++ magnitude else magnitude

/-- The whole number nearest to a magnitude; halves go up. -/
def Binary.nearest (b : Binary) : Nat :=
  if 0 ≤ b.exponent then b.mantissa * twoTo b.exponent.toNat
  else
    let den := twoTo (-b.exponent).toNat
    (2 * b.mantissa + den) / (2 * den)

/-- The whole number nearest to a floating-point number, not below zero and not above `most`. What
is no number counts as zero. -/
def nearestWithin (most : Nat) (x : Float) : Nat :=
  if x.isNaN || isNegative x then 0
  else if x.isInf then most
  else min most (Binary.ofFloat x).nearest

end Telematics.Number
