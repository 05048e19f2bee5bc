import Telematics.Segment

/-!
# Runs of activity

Several detectors find short stretches of activity and report what they grow together to. Runs are
stretches joined across short gaps; those that are too short, or over when the asked range begins,
are dropped, and the last one left may still be in progress.
-/

set_option autoImplicit false

namespace Telematics

/-- Runs of activity in order. -/
structure Activity where
  runs : List Range
  /-- The last run is still in progress. -/
  lastOngoing : Bool

namespace Activity

/-- The runs that are long enough and not over when the asked range begins. -/
def relevant (asked : Range) (minDuration : Span) (runs : List Range) : List Range :=
  (Range.atLeast minDuration runs).filter fun r => decide (asked.start < r.stop)

/-- The last run is trailing: it stopped shortly before the end of the asked range, and that end is
not long past. -/
def lastTrails (asked : Range) (now : Instant) (gap : Span) (runs : List Range) : Bool :=
  runs.getLast?.any fun r => Range.isTrailing r.stop asked.stop now gap

/-- Joins active stretches to runs and settles which are relevant and whether the last one goes
on. -/
def ofStretches (asked : Range) (now : Instant) (gap minDuration : Span)
    (active : List Range) : Activity :=
  let runs := relevant asked minDuration (Range.merge gap active)
  ⟨runs, lastTrails asked now gap runs⟩

/-- The segments of runs from their own starts. -/
def keepStarts (asked : Range) (minDuration : Span) (a : Activity) : List Segment :=
  Segment.atLeast minDuration (Segment.keepStarts asked a.lastOngoing a.runs)

/-- The segments of runs cut to the asked range. -/
def clip (asked : Range) (minDuration : Span) (a : Activity) : List Segment :=
  Segment.atLeast minDuration (Segment.clip asked a.lastOngoing a.runs)

end Activity

end Telematics
