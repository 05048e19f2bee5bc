import Telematics.Time.Instant

/-!
# Ranges of time

A range reaches from its start up to, but not including, its stop; that is what `t ∈ r` says.
`Range.mergeWith` sorts ranges and joins neighbours that overlap, touch, or leave a gap that is
short enough and that a test lets pass. `Range.merge` is the same without a test.
-/

set_option autoImplicit false

namespace Telematics

/-- A range of time. -/
structure Range where
  /-- The first instant. -/
  start : Instant
  /-- The instant at which the range is over. -/
  stop : Instant
deriving DecidableEq

namespace Range

/-- How long a range is; negative when it stops before it starts. -/
def length (r : Range) : Span := r.stop - r.start

instance : Membership Instant Range := ⟨fun r t => r.start ≤ t ∧ t < r.stop⟩

theorem mem_iff {t : Instant} {r : Range} : t ∈ r ↔ r.start ≤ t ∧ t < r.stop := Iff.rfl

instance (t : Instant) (r : Range) : Decidable (t ∈ r) := inferInstanceAs (Decidable (_ ∧ _))

/-- The order of ranges by start, and by stop where the starts agree. -/
def notAfter (a b : Range) : Bool :=
  a.start.nanos < b.start.nanos ||
    (a.start.nanos == b.start.nanos && a.stop.nanos ≤ b.stop.nanos)

/-- The gap after `r` until `next` starts; not positive when they touch or overlap. -/
def gapTo (r next : Range) : Span := next.start - r.stop

/-- Two ranges, the second starting no earlier, are joined when they touch or overlap, or when the
gap is at most `gap` and the test lets it pass. -/
def joins (gap : Span) (passes : Range → Range → Bool) (r next : Range) : Bool :=
  decide (r.gapTo next ≤ 0) || (decide (r.gapTo next ≤ gap) && passes r next)

/-- The range from the start of the first to the later of the two stops. -/
def extend (r next : Range) : Range := ⟨r.start, max r.stop next.stop⟩

/-- Joins sorted ranges from the left; `r` is the range that is still growing. -/
def coalesce (gap : Span) (passes : Range → Range → Bool) (r : Range) : List Range → List Range
  | [] => [r]
  | next :: rest =>
    if joins gap passes r next then coalesce gap passes (r.extend next) rest
    else r :: coalesce gap passes next rest

/-- Ranges in order, joined where they touch or overlap and across gaps that are at most `gap` and
that the test lets pass. -/
def mergeWith (gap : Span) (passes : Range → Range → Bool) (ranges : List Range) : List Range :=
  match ranges.mergeSort notAfter with
  | [] => []
  | r :: rest => coalesce gap passes r rest

/-- Ranges in order, joined across every gap that is at most `gap`. -/
def merge (gap : Span) (ranges : List Range) : List Range := mergeWith gap (fun _ _ => true) ranges

/-- The ranges that are at least so long. -/
def atLeast (shortest : Span) (ranges : List Range) : List Range :=
  ranges.filter fun r => decide (shortest ≤ r.length)

/-- Activity that stopped at `lastStop` still counts as in progress: the stop is at most `gap`
before the end of the asked range, and that end is at most `gap` before the present. -/
def isTrailing (lastStop askedStop now : Instant) (gap : Span) : Bool :=
  decide (askedStop - lastStop ≤ gap) && decide (now - askedStop ≤ gap)

/-- Two ranges are joined when the second one starts no later than the first one stops, or so little
later that the gap and the test let it pass. -/
theorem joins_iff {gap : Span} {passes : Range → Range → Bool} {r next : Range} :
    joins gap passes r next = true ↔
      next.start ≤ r.stop ∨ next.start.nanos ≤ r.stop.nanos + gap ∧ passes r next = true := by
  simp only [joins, gapTo, Bool.or_eq_true, Bool.and_eq_true, decide_eq_true_eq,
    Instant.sub_le_iff, Instant.le_iff, Int.add_zero]

/-- The order of ranges is total. -/
theorem notAfter_total (a b : Range) : (notAfter a b || notAfter b a) = true := by
  simp only [notAfter, Bool.or_eq_true, Bool.and_eq_true, decide_eq_true_eq, beq_iff_eq]
  omega

/-- The order of ranges is transitive. -/
theorem notAfter_trans (a b c : Range) (hab : notAfter a b = true) (hbc : notAfter b c = true) :
    notAfter a c = true := by
  simp only [notAfter, Bool.or_eq_true, Bool.and_eq_true, decide_eq_true_eq, beq_iff_eq] at *
  omega

end Range

end Telematics
