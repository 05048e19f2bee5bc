import Telematics.Detection.Activity
import Telematics.Detection.Arrivals
import Telematics.Detection.Signal

/-!
# Idling

An engine idles while its speed is above zero and not above a ceiling. One mechanism looks at the
samples: a run of idle samples is ended by a sample that is not idle, or by a gap. The other looks
at the minutes whose samples are all idle.
-/

set_option autoImplicit false

namespace Telematics.Idling

/-- The default of the ceiling of the engine speed. -/
def defaultRpm : Float := 1000.0

/-- The default of the longest gap, in seconds. -/
def defaultGap : Int := 300

/-- The default of the shortest segment, in seconds. -/
def defaultMinSegment : Int := 240

/-- The default of the number of samples of an idle minute. -/
def defaultThreshold : Nat := 3

/-- The engine runs, and not faster than the ceiling. -/
def isIdle (ceiling rpm : Float) : Bool := decide (0.0 < rpm) && decide (rpm ≤ ceiling)

/-- The runs of idle samples, in order; `run` is the one that is still growing. -/
def growRuns (ceiling : Float) (gap : Span) (run : Option Range) :
    List (Sample Float) → List Range
  | [] => run.toList
  | s :: later =>
    if isIdle ceiling s.value then
      match run with
      | none => growRuns ceiling gap (some ⟨s.time, s.time⟩) later
      | some r =>
        if s.time - r.stop ≤ gap then growRuns ceiling gap (some ⟨r.start, s.time⟩) later
        else r :: growRuns ceiling gap (some ⟨s.time, s.time⟩) later
    else run.toList ++ growRuns ceiling gap none later

/-- The runs of idle samples, in order. -/
def runs (ceiling : Float) (gap : Span) (samples : List (Sample Float)) : List Range :=
  growRuns ceiling gap none samples

/-- The ceiling of the engine speed. -/
def ceiling (t : Tuning) : Float := t.idleRpm defaultRpm

/-- The longest gap. -/
def gap (t : Tuning) : Span := t.maxGap defaultGap

/-- The shortest segment. -/
def minDuration (t : Tuning) : Span := t.minSegment defaultMinSegment

/-- The last sample is idle. -/
def stillIdle (ceiling : Float) (samples : List (Sample Float)) : Bool :=
  samples.getLast?.any fun s => isIdle ceiling s.value

/-- The segments of the samples of the engine speed. The last run can only be in progress if the
engine idles to the end of the samples. -/
def segments (r : Request) (now : Instant) (samples : List (Sample Float)) : List Segment :=
  let found := Activity.relevant r.asked (minDuration r.tuning)
    (runs (ceiling r.tuning) (gap r.tuning) samples)
  let ongoing := stillIdle (ceiling r.tuning) samples &&
    Activity.lastTrails r.asked now (gap r.tuning) found
  Activity.clip r.asked (minDuration r.tuning) ⟨found, ongoing⟩

/-- What to read. -/
def read (r : Request) : Read :=
  .levels r.token Signal.engineSpeed ⟨r.asked.start - gap r.tuning, r.asked.stop⟩

/-- Reads the samples and finds the segments. -/
def samplePlan (r : Request) (now : Instant) : Plan (List Segment) :=
  .ask (read r) fun samples => .done (segments r now samples)

/-- The question for minutes whose samples are all idle. -/
def windowQuery (r : Request) : WindowQuery :=
  { WindowQuery.all ⟨r.asked.start.alignDown Arrivals.windowSeconds, r.asked.stop⟩
      Arrivals.windowSeconds with
    leastCount := r.tuning.countThreshold defaultThreshold
    band := some ⟨Signal.engineSpeed, 0.0, ceiling r.tuning⟩ }

/-- The segments of the idle minutes. -/
def windowSegments (r : Request) (now : Instant) (found : List Window) : List Segment :=
  (Activity.ofStretches r.asked now (gap r.tuning) (minDuration r.tuning)
    (found.map Window.range)).clip r.asked (minDuration r.tuning)

/-- Reads the idle minutes and finds the segments. -/
def windowPlan (r : Request) (now : Instant) : Plan (List Segment) :=
  .ask (.windows r.token (windowQuery r)) fun found => .done (windowSegments r now found)

end Telematics.Idling
