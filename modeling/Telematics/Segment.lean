import Telematics.Range

/-!
# Segments

A segment is one stretch of an activity as it is reported: closed, with a stop, or ongoing at the
end of the asked range. Durations are whole seconds that must fit 32 bits; a length that does not is
reported as the largest duration. Two builders turn ranges into segments: `Segment.clip` cuts them
to the asked range, `Segment.keepStarts` leaves their starts and only caps their stops.
-/

set_option autoImplicit false

namespace Telematics

/-- One stretch of an activity. -/
structure Segment where
  /-- The first instant. -/
  start : Instant
  /-- The instant at which it was over; none while it is ongoing. -/
  stop : Option Instant
  /-- The whole seconds from the start to the stop, or to the end of the asked range. -/
  durationSeconds : Int
  /-- It was still in progress at the end of the asked range. -/
  isOngoing : Bool
  /-- The activity began before the asked range. -/
  startedBefore : Bool
deriving DecidableEq

namespace Segment

/-- The largest duration that can be reported, in seconds. -/
def longest : Int := 2147483647

/-- The whole seconds of a length, or the largest duration where 32 bits do not hold them. -/
def durationOf (d : Span) : Int :=
  let s := d.wholeSeconds
  if -2147483648 ≤ s ∧ s ≤ longest then s else longest

/-- A finished segment; none unless it stops after it starts. -/
def closed? (start stop : Instant) (startedBefore : Bool) : Option Segment :=
  if start < stop then some ⟨start, some stop, durationOf (stop - start), false, startedBefore⟩
  else none

/-- A segment in progress at the end of the asked range. -/
def ongoing (start askedStop : Instant) (startedBefore : Bool) : Segment :=
  ⟨start, none, durationOf (askedStop - start), true, startedBefore⟩

/-- The reported duration as a length of time. -/
def duration (s : Segment) : Span := Span.seconds s.durationSeconds

/-- The instant up to which a segment reaches: its stop, or the end of the asked range. -/
def reach (s : Segment) (askedStop : Instant) : Instant := s.stop.getD askedStop

/-- The segments that are reported as at least so long. -/
def atLeast (shortest : Span) (segments : List Segment) : List Segment :=
  segments.filter fun s => decide (shortest ≤ s.duration)

/-- The segments of a list of ranges, with a rule of its own for the last one. -/
def ofRanges (inner last : Range → Option Segment) : List Range → List Segment
  | [] => []
  | [r] => (last r).toList
  | r :: next :: rest => (inner r).toList ++ ofRanges inner last (next :: rest)

/-- The closed segment of a range cut to the asked range. -/
def clipped (asked r : Range) : Option Segment :=
  closed? (max r.start asked.start) (min r.stop asked.stop) (decide (r.start < asked.start))

/-- The ongoing segment of a range that starts before the end of the asked range. -/
def clippedOngoing (asked r : Range) : Option Segment :=
  let start := max r.start asked.start
  if start < asked.stop then some (ongoing start asked.stop (decide (r.start < asked.start)))
  else none

/-- Ranges cut to the asked range; the last one is in progress if `lastOngoing`. -/
def clip (asked : Range) (lastOngoing : Bool) (ranges : List Range) : List Segment :=
  ofRanges (clipped asked) (if lastOngoing then clippedOngoing asked else clipped asked) ranges

/-- The closed segment of a range from its own start, its stop capped by the asked range. -/
def capped (asked r : Range) : Option Segment :=
  closed? r.start (min r.stop asked.stop) (decide (r.start < asked.start))

/-- The ongoing segment of a range from its own start. -/
def cappedOngoing (asked r : Range) : Option Segment :=
  some (ongoing r.start asked.stop (decide (r.start < asked.start)))

/-- Ranges from their own starts; the last one is in progress if `lastOngoing`. -/
def keepStarts (asked : Range) (lastOngoing : Bool) (ranges : List Range) : List Segment :=
  ofRanges (capped asked) (if lastOngoing then cappedOngoing asked else capped asked) ranges

end Segment

end Telematics
