import Telematics.Detection.Signal
import Telematics.Request
import Telematics.Segment
import Telematics.Source.Plan

/-!
# Refuels from the fuel level

A window of five minutes slides over the samples in steps of one minute. Where the level at its end
is far enough above the level at its start, the foot of the rise (the trough) and its top (the peak)
are searched from the sample at the window's start; a rise of 20 points that takes long enough is a
refuel. Overlapping and touching finds are one.

A `Cursor` is a place in a series: the sample there, the samples before it, nearest first, and the
samples after it.
-/

set_option autoImplicit false

namespace Telematics

/-- A place in a series. -/
structure Cursor (α : Type) where
  /-- The samples before it, the nearest first. -/
  earlier : List (Sample α)
  /-- The sample at it. -/
  here : Sample α
  /-- The samples after it. -/
  later : List (Sample α)

namespace Cursor

variable {α : Type}

/-- The whole series. -/
def toList (c : Cursor α) : List (Sample α) := c.earlier.reverse ++ c.here :: c.later

variable [Level α]

/-- Moves on while the next sample is not after an instant and not higher. -/
def sink (limit : Instant) (earlier : List (Sample α)) (here : Sample α) :
    List (Sample α) → Cursor α
  | [] => ⟨earlier, here, []⟩
  | next :: later =>
    if next.time ≤ limit ∧ next.value ≤ here.value then sink limit (here :: earlier) next later
    else ⟨earlier, here, next :: later⟩

/-- Moves back while the sample before is lower. -/
def fallBack (here : Sample α) (later : List (Sample α)) : List (Sample α) → Cursor α
  | [] => ⟨[], here, later⟩
  | before :: earlier =>
    if before.value < here.value then fallBack before (here :: later) earlier
    else ⟨before :: earlier, here, later⟩

/-- The last low point before a rise: moves on while the level does not climb up to an instant, then
back over lower samples. -/
def trough (limit : Instant) (c : Cursor α) : Cursor α :=
  let low := sink limit c.earlier c.here c.later
  fallBack low.here low.later low.earlier

/-- The first highest sample, up to an instant and as long as the level does not fall by more than
one below the highest so far. -/
def peak (limit : Instant) (best : Sample α) : List (Sample α) → Sample α
  | [] => best
  | s :: later =>
    if limit < s.time then best
    else if best.value < s.value then peak limit s later
    else if s.value < best.value - 1.0 then best
    else peak limit best later

end Cursor

namespace Refuel

/-- The length of the sliding window. -/
def windowLength : Span := Span.minutes 5

/-- The step by which it slides, in seconds. -/
def stepSeconds : Int := 60

/-- How long after the window the peak is searched. -/
def peakSearch : Span := Span.minutes 30

/-- How far around the asked range samples are read. -/
def readMargin : Span := Span.minutes 35

/-- The default of the least increase, in percent of the level at the window's start. -/
def defaultIncrease : Float := 30.0

/-- The default of the shortest refuel, in seconds. -/
def defaultMinSegment : Int := 60

variable {α : Type} [Level α]

/-- Below this level an increase in percent means nothing. -/
def leastStart : α := 1e-6

/-- The least rise from the trough to the peak, in percentage points. -/
def leastRise : α := 20.0

/-- The level at the end of a window whose start is at the cursor. -/
def levelAtEnd (stop : Instant) (c : Cursor α) : α :=
  (((Series.upTo stop c.later).getLast?).getD c.here).value

/-- The increase over a window in percent of the level at its start is not above the least one. -/
def tooFlat (leastIncrease : α) (first last : α) : Bool :=
  decide ((last - first) / first * 100.0 ≤ leastIncrease)

/-- The refuel that a window shows, if any; its start is at the cursor. -/
def inWindow (stop : Instant) (leastIncrease : α) (minDuration : Span) (c : Cursor α) :
    Option Range :=
  if c.here.value < leastStart then none
  else if tooFlat leastIncrease c.here.value (levelAtEnd stop c) then none
  else
    let low := c.trough stop
    let top := Cursor.peak (stop + peakSearch) low.here low.later
    let found : Range := ⟨low.here.time, top.time⟩
    if leastRise ≤ top.value - low.here.value ∧ minDuration ≤ found.length then some found
    else none

/-- Moves samples that are not after an instant from the later ones to the earlier ones. -/
def advance (t : Instant) (earlier : List (Sample α)) :
    List (Sample α) → List (Sample α) × List (Sample α)
  | [] => (earlier, [])
  | s :: later => if s.time ≤ t then advance t (s :: earlier) later else (earlier, s :: later)

/-- The cursor at the last of the earlier samples. -/
def cursorAt (earlier later : List (Sample α)) : Option (Cursor α) :=
  match earlier with
  | [] => none
  | s :: before => some ⟨before, s, later⟩

/-- The refuels that windows show, one window after the other; the samples are split where the last
window started. -/
def slide (leastIncrease : α) (minDuration : Span) (earlier later : List (Sample α)) :
    List Instant → List Range
  | [] => []
  | start :: starts =>
    match advance start earlier later with
    | (earlier, later) =>
      ((cursorAt earlier later).bind
          (inWindow (start + windowLength) leastIncrease minDuration)).toList ++
        slide leastIncrease minDuration earlier later starts

/-- The starts of the windows: every minute from five minutes before the asked range to five minutes
after it. -/
def windowStarts (asked : Range) : List Instant :=
  Instant.every (Span.seconds stepSeconds)
    ((asked.start - windowLength).alignDown stepSeconds) (asked.stop + windowLength)

/-- The refuels that samples show. -/
def finds (asked : Range) (leastIncrease : α) (minDuration : Span) (samples : List (Sample α)) :
    List Range :=
  slide leastIncrease minDuration [] samples (windowStarts asked)

/-- The segments of the samples; fewer than two show nothing. -/
def segments (asked : Range) (leastIncrease : α) (minDuration : Span)
    (samples : List (Sample α)) : List Segment :=
  if samples.length < 2 then []
  else
    Segment.atLeast minDuration
      (Segment.clip asked false (Range.merge 0 (finds asked leastIncrease minDuration samples)))

/-- What to read. -/
def read (r : Request) : Read :=
  .levels r.token Signal.fuelLevel ⟨r.asked.start - readMargin, r.asked.stop + readMargin⟩

/-- Reads the samples and finds the refuels. -/
def plan (r : Request) : Plan (List Segment) :=
  .ask (read r) fun samples =>
    .done (segments r.asked (r.tuning.minIncrease defaultIncrease)
      (r.tuning.minSegment defaultMinSegment) samples)

end Refuel

end Telematics
