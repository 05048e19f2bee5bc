import Telematics.Detection.Signal
import Telematics.Request
import Telematics.Segment
import Telematics.Source.Plan

/-!
# Trips from the ignition

A trip starts when the ignition goes on from a known other state and ends at the next time it goes
off for long enough: an off that the next on follows too soon is a blip and is dropped. `debounce`
drops the blips, `trips` pairs what is left, and `Trip.segment?` says which trips are reported.
-/

set_option autoImplicit false

namespace Telematics

/-- A trip, with no stop while it is still going on. -/
structure Trip where
  /-- When the ignition went on. -/
  start : Instant
  /-- When it went off. -/
  stop : Option Instant
deriving DecidableEq

namespace Ignition

/-- How far before the asked range to look for the on that opened a trip. -/
def lookback : Span := Span.hours 24

/-- The default of the shortest time off that ends a trip, in seconds. -/
def defaultMinIdle : Int := 600

/-- The default of the shortest trip, in seconds. -/
def defaultMinSegment : Int := 150

/-- When the ignition next goes on. -/
def nextOn (changes : List StateChange) : Option Instant :=
  (changes.find? StateChange.isOn).map StateChange.time

/-- An off that the next on follows before `minIdle` is over. -/
def isBlip (minIdle : Span) (c : StateChange) (later : List StateChange) : Bool :=
  c.isOff && (nextOn later).any fun t => decide (t - c.time < minIdle)

/-- The changes without the blips. -/
def debounce (minIdle : Span) : List StateChange → List StateChange
  | [] => []
  | c :: later =>
    if isBlip minIdle c later then debounce minIdle later else c :: debounce minIdle later

/-- The ignition goes on from a state that is known and is not on. -/
def opens (c : StateChange) : Bool := c.isOn && !c.prevUnknown && !(c.prevState == 1.0)

/-- Pairs each opening on with the next off; `start` is the one that is still open. Other ons are
passed over while a trip is open, and offs while none is. -/
def pair (start : Option Instant) : List StateChange → List Trip
  | [] => (start.map fun t => ⟨t, none⟩).toList
  | c :: later =>
    match start with
    | none => pair (if opens c then some c.time else none) later
    | some t => if c.isOff then ⟨t, some c.time⟩ :: pair none later else pair (some t) later

/-- The trips in a list of changes. -/
def trips (minIdle : Span) (changes : List StateChange) : List Trip :=
  pair none (debounce minIdle changes)

/-- The segment of a trip that is long enough and does not end before the asked range begins. -/
def segment? (asked : Range) (minDuration : Span) (trip : Trip) : Option Segment :=
  let before := decide (trip.start < asked.start)
  match trip.stop with
  | some stop =>
    if stop ≤ asked.start ∨ stop - trip.start < minDuration then none
    else Segment.closed? trip.start stop before
  | none =>
    if asked.stop - trip.start < minDuration then none
    else some (Segment.ongoing trip.start asked.stop before)

/-- The segments of a list of changes. -/
def segments (asked : Range) (tuning : Tuning) (changes : List StateChange) : List Segment :=
  (trips (tuning.minIdle defaultMinIdle) changes).filterMap
    (segment? asked (tuning.minSegment defaultMinSegment))

/-- What to read. -/
def read (r : Request) : Read :=
  .changes r.token Signal.ignition ⟨r.asked.start - lookback, r.asked.stop⟩

/-- Reads the changes and finds the trips. -/
def plan (r : Request) : Plan (List Segment) :=
  .ask (read r) fun changes => .done (segments r.asked r.tuning changes)

end Ignition

end Telematics
