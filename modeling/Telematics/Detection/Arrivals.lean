import Telematics.Detection.Activity
import Telematics.Detection.Cusum
import Telematics.Request
import Telematics.Source.Plan

/-!
# Trips from arrivals

A vehicle that drives sends many readings. Two mechanisms look at the counts per minute: one calls a
minute active when its count reaches a threshold, the other when a score that follows the counts is
high. The second looks back by the gap tolerance, so that activity already under way when the asked
range begins keeps its start, and gives every minute without a window the count zero.
-/

set_option autoImplicit false

namespace Telematics.Arrivals

/-- The length of a window in seconds. -/
def windowSeconds : Int := 60

/-- The length of a window. -/
def windowLength : Span := Span.seconds windowSeconds

/-- The default of the count of an active window. -/
def defaultThreshold : Nat := 12

/-- The default of the gap tolerance, in seconds. -/
def defaultGap : Int := 600

/-- The default of the shortest trip, in seconds. -/
def defaultMinSegment : Int := 240

/-- The gap tolerance: the longest gap, else the shortest time off, else a default. -/
def gap (t : Tuning) : Span := t.maxGap (t.minIdleSeconds.getD defaultGap)

/-- It is the longest gap in seconds if that is given, else the shortest time off if that is, else
600 seconds. -/
theorem gap_eq (t : Tuning) :
    gap t =
      match t.maxGapSeconds, t.minIdleSeconds with
      | some longest, _ => Span.seconds longest
      | none, some shortest => Span.seconds shortest
      | none, none => Span.seconds 600 := by
  rw [gap, Tuning.maxGap]
  cases t.maxGapSeconds with
  | some longest => rfl
  | none => cases t.minIdleSeconds <;> rfl

/-- The shortest trip. -/
def minDuration (t : Tuning) : Span := t.minSegment defaultMinSegment

/-- The segments that active stretches grow together to. -/
def segmentsOf (r : Request) (now : Instant) (active : List Range) : List Segment :=
  (Activity.ofStretches r.asked now (gap r.tuning) (minDuration r.tuning) active).keepStarts
    r.asked (minDuration r.tuning)

/-- The question for windows that reach the threshold. -/
def frequencyQuery (r : Request) : WindowQuery :=
  { WindowQuery.all ⟨r.asked.start.alignDown windowSeconds, r.asked.stop⟩ windowSeconds with
    leastCount := r.tuning.countThreshold defaultThreshold }

/-- Reads the windows that reach the threshold and finds the trips. -/
def frequencyPlan (r : Request) (now : Instant) : Plan (List Segment) :=
  .ask (.windows r.token (frequencyQuery r)) fun found =>
    .done (segmentsOf r now (List.map Window.range found))

/-- Where the second mechanism begins to look. -/
def lookbackStart (r : Request) : Instant :=
  (r.asked.start - gap r.tuning).alignDown windowSeconds

/-- The question for every window. -/
def changePointQuery (r : Request) : WindowQuery :=
  WindowQuery.all ⟨lookbackStart r, r.asked.stop⟩ windowSeconds

/-- The starts of the minutes that the second mechanism looks at. -/
def slots (r : Request) : List Instant :=
  Instant.every windowLength (lookbackStart r) r.asked.stop

/-- One count for each slot: that of the window that starts with it, or zero. -/
def dense : List Instant → List Window → List Nat
  | [], _ => []
  | slot :: later, windows =>
    match windows.dropWhile fun w => decide (w.start < slot) with
    | [] => 0 :: dense later []
    | w :: rest =>
      if w.start = slot then w.signalCount :: dense later rest else 0 :: dense later (w :: rest)

/-- The minutes in which the score is high. -/
def activeSlots (slots : List Instant) (windows : List Window) : List Range :=
  ((slots.zip (Cusum.active (dense slots windows))).filter Prod.snd).map fun (slot, _) =>
    ⟨slot, slot + windowLength⟩

/-- Reads every window and finds the trips. -/
def changePointPlan (r : Request) (now : Instant) : Plan (List Segment) :=
  .ask (.windows r.token (changePointQuery r)) fun found =>
    .done (segmentsOf r now (activeSlots (slots r) found))

end Telematics.Arrivals
