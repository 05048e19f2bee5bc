import Telematics.Text.Blank

/-!
# Timeouts in text

A timeout is a number of milliseconds. It is written in seconds from one second on, with the
fraction digits that are needed, below that in milliseconds, and zero in nanoseconds.
-/

set_option autoImplicit false

namespace Telematics

/-- A length of time in milliseconds. -/
structure Timeout where
  millis : Nat
deriving DecidableEq

namespace Timeout

/-- The fraction digits of so many thousandths, without zeros at the end. -/
def fractionDigits (thousandths : Nat) : String :=
  String.ofList ((Text.decimalDigits 3 thousandths).reverse.dropWhile (· == '0')).reverse

/-- The text of a timeout. -/
def render (t : Timeout) : String :=
  if t.millis = 0 then "0ns"
  else if t.millis < 1000 then toString t.millis ++ "ms"
  else
    let seconds := toString (t.millis / 1000)
    if t.millis % 1000 = 0 then seconds ++ "s"
    else seconds ++ "." ++ fractionDigits (t.millis % 1000) ++ "s"

end Timeout

end Telematics
