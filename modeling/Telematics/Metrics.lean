import Telematics.Number.Word
import Telematics.Service

/-!
# Metrics

The metrics of a service are counters per mechanism, kept as the reports they sum up: how many calls
were reported, how many segments the completed ones found, and how many failed. They are shown as
lines of text in byte order; a counter is shown from the first report that touches it.
-/

set_option autoImplicit false

namespace Telematics

/-- The mechanism that a report is about. -/
def Report.mechanism : Report → Mechanism
  | completed m _ => m
  | failed m => m

/-- The segments that a report adds for a mechanism; none if it adds nothing to the counter. -/
def Report.segmentsOf (m : Mechanism) : Report → Option Nat
  | completed m' n => if m' = m then some n else none
  | failed _ => none

/-- The counters of a service. -/
structure Metrics where
  /-- The reports so far, in order. -/
  reports : List Report

namespace Metrics

/-- No report yet. -/
def empty : Metrics := ⟨[]⟩

/-- More reports. -/
def record (metrics : Metrics) (reports : List Report) : Metrics := ⟨metrics.reports ++ reports⟩

/-- How many calls of a mechanism were reported. -/
def calls (metrics : Metrics) (m : Mechanism) : Nat :=
  metrics.reports.countP fun r => r.mechanism == m

/-- How many segments a mechanism found. -/
def segments (metrics : Metrics) (m : Mechanism) : Nat :=
  (metrics.reports.filterMap (Report.segmentsOf m)).foldr (· + ·) 0

/-- How many calls of a mechanism failed. -/
def errors (metrics : Metrics) (m : Mechanism) : Nat :=
  metrics.reports.countP fun r => r == .failed m

/-- Some call of a mechanism was completed. -/
def completedAny (metrics : Metrics) (m : Mechanism) : Bool :=
  metrics.reports.any fun r => (r.segmentsOf m).isSome

/-- A line of one counter; counters have 64 bits. -/
def line (counter : String) (m : Mechanism) (value : Nat) : String :=
  counter ++ "\x7bmechanism=\"" ++ m.name ++ "\"\x7d " ++ toString (value % Number.twoTo 64)

/-- The lines of one mechanism. -/
def linesOf (metrics : Metrics) (m : Mechanism) : List String :=
  (if metrics.calls m = 0 then []
    else [line "segment_detection_duration_seconds_count" m (metrics.calls m)]) ++
  (if metrics.completedAny m then [line "segment_detection_segments" m (metrics.segments m)]
    else []) ++
  (if metrics.errors m = 0 then []
    else [line "segment_detection_errors_total" m (metrics.errors m)])

/-- All lines in byte order; every character of a line is ASCII. -/
def lines (metrics : Metrics) : List String :=
  (Mechanism.all.flatMap metrics.linesOf).mergeSort fun a b => decide (a ≤ b)

end Metrics

end Telematics
