import Telematics.Detection.Signal
import Telematics.Request
import Telematics.Rise
import Telematics.Segment
import Telematics.Source.Plan

/-!
# Recharges from the state of charge

The state of charge is smoothed, and each climb of the smoothed values that is large and long enough
is a candidate. Smoothing widens a climb at both ends, so it is narrowed to the last lowest and the
first highest of the readings themselves. The vehicle must be parked meanwhile: between the first
and the last reading of the odometer in that time there is at most half a kilometre. Candidates are
joined across gaps of up to two hours if the odometer shows the same on both sides.
-/

set_option autoImplicit false

namespace Telematics.Recharge

/-- The number of values that smoothing takes together. -/
def smoothing : Nat := 11

/-- With fewer samples no climb is trusted. -/
def leastSamples : Nat := 13

/-- The default of the least increase, in percentage points. -/
def defaultIncrease : Float := 1.0

/-- The default of the shortest recharge, in seconds. -/
def defaultMinSegment : Int := 60

/-- The longest gap across which candidates are joined. -/
def longestGap : Span := Span.hours 2

/-- How far before the asked range samples are read. -/
def lookback : Span := Span.hours 2

variable {α : Type} [Level α]

/-- How far the odometer may be off while the vehicle is parked, in kilometres. -/
def odometerNoise : α := 0.5

/-- The last lowest of some samples and the samples from it on; `low` with `fromLow` after it is the
lowest so far. -/
def lastLowest (low : Sample α) (fromLow : List (Sample α)) : List (Sample α) →
    Sample α × List (Sample α)
  | [] => (low, fromLow)
  | s :: later =>
    if s.value ≤ low.value then lastLowest s later later else lastLowest low fromLow later

/-- The first highest of some samples; `high` is the highest so far. -/
def firstHighest (high : Sample α) : List (Sample α) → Sample α
  | [] => high
  | s :: later => if high.value < s.value then firstHighest s later else firstHighest high later

/-- The range from the last lowest of some samples to the first highest after it. -/
def narrowed (first : Sample α) (later : List (Sample α)) : Range :=
  match lastLowest first later later with
  | (low, fromLow) => ⟨low.time, (firstHighest low fromLow).time⟩

/-- The samples from position `foot` to position `top`, both included. -/
def between (foot top : Nat) (samples : List (Sample α)) : List (Sample α) :=
  (samples.drop foot).take (top + 1 - foot)

/-- The readings of the odometer in a range differ by no more than noise, if there are any. -/
def parkedDuring (odometer : List (Sample α)) (r : Range) : Bool :=
  match Series.firstLast r.start r.stop odometer with
  | some (first, last) => decide (last - first ≤ odometerNoise)
  | none => true

/-- The odometer shows the same before and after a gap. -/
def sameOdometer (odometer : List (Sample α)) (a b : Range) : Bool :=
  match Series.valueAtOrBefore a.stop odometer, Series.valueAtOrBefore b.start odometer with
  | some before, some after => Level.same before after
  | _, _ => false

/-- A climb of the smoothed values that is large and long enough, and that the readings at its foot
and top bear out. -/
def qualifies (leastIncrease : α) (minDuration : Span) (smoothFoot smoothTop : α)
    (foot top : Sample α) : Bool :=
  decide (leastIncrease ≤ smoothTop - smoothFoot) && decide (minDuration ≤ top.time - foot.time) &&
    decide (foot.value < top.value)

/-- The candidate that the climb from position `foot` to position `top` is. -/
def candidate (charge odometer : List (Sample α)) (smoothed : List α) (leastIncrease : α)
    (minDuration : Span) (climb : Nat × Nat) : Option Range :=
  match smoothed[climb.1]?, smoothed[climb.2]?, charge[climb.2]?,
      between climb.1 climb.2 charge with
  | some smoothFoot, some smoothTop, some top, foot :: later =>
    if qualifies leastIncrease minDuration smoothFoot smoothTop foot top then
      let r := narrowed foot later
      if minDuration ≤ r.length ∧ parkedDuring odometer r then some r else none
    else none
  | _, _, _, _ => none

/-- The candidates in a series of the state of charge; none at all if two smoothed values cannot be
compared. -/
def candidates (charge odometer : List (Sample α)) (leastIncrease : α) (minDuration : Span) :
    Option (List Range) :=
  let smoothed := Series.rollingMean smoothing (charge.map Sample.value)
  (rises smoothed).map fun climbs =>
    climbs.filterMap (candidate charge odometer smoothed leastIncrease minDuration)

/-- The segments of candidates. -/
def segmentsOf (asked : Range) (odometer : List (Sample α)) (minDuration : Span)
    (found : List Range) : List Segment :=
  Segment.atLeast minDuration
    (Segment.clip asked false (Range.mergeWith longestGap (sameOdometer odometer) found))

/-- What is read: samples from two hours before the asked range to its end. -/
def readSpan (r : Request) : Range := ⟨r.asked.start - lookback, r.asked.stop⟩

/-- The plan once the state of charge is known. -/
def planWith (r : Request) (charge : List (Sample Float)) : Plan (List Segment) :=
  if charge.length < leastSamples then .done []
  else
    .ask (.levels r.token Signal.odometer (readSpan r)) fun odometer =>
      let minDuration := r.tuning.minSegment defaultMinSegment
      match candidates charge odometer (r.tuning.minIncrease defaultIncrease) minDuration with
      | some found => .done (segmentsOf r.asked odometer minDuration found)
      | none => .stuck

/-- Reads the state of charge, then the odometer, and finds the recharges. -/
def plan (r : Request) : Plan (List Segment) :=
  .ask (.levels r.token Signal.stateOfCharge (readSpan r)) (planWith r)

end Telematics.Recharge
