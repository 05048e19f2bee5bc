import Telematics.Mechanism
import Telematics.Number.Decimal
import Telematics.Range
import Telematics.Source.Basic
import Telematics.Time.Rfc3339
import Telematics.Tuning

/-!
# Requests and why they are rejected

A request names a vehicle, a range of time and tunables. `Request.rejection` gives the first reason
not to serve it, before anything is read; the margin of 25 hours that must lie inside the calendar
on both sides of the range covers every instant that any detector looks at.
-/

set_option autoImplicit false

namespace Telematics

/-- What to look for segments in. -/
structure Request where
  token : TokenId
  asked : Range
  tuning : Tuning
deriving DecidableEq

/-- Why a request is not served. -/
inductive Rejection where
  /-- No vehicle has the token 0. -/
  | zeroToken
  /-- The range does not start before it stops. -/
  | notAscending (asked : Range)
  /-- The range and its margins leave the calendar. -/
  | outsideCalendar
  /-- The range is longer than 30 days. -/
  | tooLong
  /-- The range stops in the future. -/
  | inFuture
  /-- A tunable has a value that it does not allow. -/
  | outsideRange (outside : Tuning.Outside)
  /-- No mechanism has the name. -/
  | unknownMechanism (name : String)

namespace Rejection

/-- The words of a range that does not start before it stops. -/
def notAscendingText (asked : Range) : String :=
  "from (" ++ asked.start.renderOffset ++ ") must be before to (" ++ asked.stop.renderOffset ++ ")"

/-- The words of a tunable outside its range. -/
def outsideText (o : Tuning.Outside) : String :=
  o.tunable.name ++ " value " ++ Number.plain o.value ++ " is out of range [" ++
    toString o.tunable.low ++ ", " ++ toString o.tunable.high ++ "]"

/-- The words of a rejection. -/
def message : Rejection → String
  | zeroToken => "invalid token id: 0"
  | notAscending asked => "invalid time range: " ++ notAscendingText asked
  | outsideCalendar => "invalid time range: time range is outside the supported calendar"
  | tooLong => "date range cannot exceed 30 days"
  | inFuture => "time range ends in the future"
  | outsideRange o => outsideText o
  | unknownMechanism name => "unknown detection mechanism: " ++ name

end Rejection

namespace Request

/-- The margin around the range that must lie inside the calendar. -/
def margin : Span := Span.hours 25

/-- The longest range. -/
def longest : Span := Span.days 30

/-- The first reason not to serve a request. -/
def rejection (now : Instant) (r : Request) : Option Rejection :=
  if r.token = 0 then some .zeroToken
  else if r.asked.stop ≤ r.asked.start then some (.notAscending r.asked)
  else if ¬ (r.asked.start - margin).InCalendar ∨ ¬ (r.asked.stop + margin).InCalendar then
    some .outsideCalendar
  else if longest < r.asked.length then some .tooLong
  else if now < r.asked.stop then some .inFuture
  else r.tuning.firstOutside.map .outsideRange

end Request

end Telematics
