import Telematics.Detection.Activity
import Telematics.Proofs.CalendarMinutes
import Telematics.Series

/-!
# Time moved by a length

What becomes of ranges, segments and samples when every instant moves by the same length of time,
forward or back. Instants keep their order and their distances, so that joining, cutting, filtering
and looking up give the moved results: there is one lemma for each function of the three, `…_shift`,
that takes the function past the move. Nothing here depends on the length.
-/

set_option autoImplicit false

namespace Telematics

/-! ## Instants -/

namespace Instant

variable (a b t : Instant) (d e : Span)

/-- Instants that move together keep their order. -/
@[simp] theorem add_lt_add_iff : a + d < b + d ↔ a < b := Int.add_lt_add_iff_right d

/-- Instants that move together keep their distance. -/
@[simp] theorem add_sub_add : ((a + d) - (b + d) : Span) = a - b :=
  Int.add_sub_add_right a.nanos d b.nanos

@[simp] theorem add_inj : a + d = b + d ↔ a = b := by
  constructor
  · intro h
    exact eq_of_nanos_eq ((Int.add_left_inj d).1 (congrArg nanos h))
  · rintro rfl
    rfl

/-- Of two moved instants the later one is the later one, moved. -/
theorem max_add : max (a + d) (b + d) = max a b + d :=
  eq_of_nanos_eq (Int.max_add_right a.nanos b.nanos d)

theorem min_add : min (a + d) (b + d) = min a b + d :=
  eq_of_nanos_eq (Int.min_add_right a.nanos b.nanos d)

theorem add_add_comm : t + d + e = t + e + d :=
  eq_of_nanos_eq (Int.add_right_comm t.nanos d e)

/-- Moving and looking back can be done in either order. -/
theorem add_sub_comm : t + d - e = t - e + d :=
  eq_of_nanos_eq (by
    show t.nanos + d - e = t.nanos - e + d
    omega)

/-- A scan that starts and stops later runs through later instants. -/
theorem every_add (step : Span) (start stop : Instant) :
    every step (start + d) (stop + d) = (every step start stop).map fun (t : Instant) => t + d := by
  simp only [every, nanos_add, Int.add_sub_add_right, List.map_map]
  apply List.map_congr_left
  intro i _
  exact add_add_comm start d (step * (i : Int))

end Instant

variable {d : Span}

/-! ## Ranges -/

namespace Range

/-- The range moved by a length of time. -/
def shift (d : Span) (r : Range) : Range := ⟨r.start + d, r.stop + d⟩

@[simp] theorem start_shift (d : Span) (r : Range) : (r.shift d).start = r.start + d := rfl

@[simp] theorem stop_shift (d : Span) (r : Range) : (r.shift d).stop = r.stop + d := rfl

@[simp] theorem length_shift (r : Range) : (r.shift d).length = r.length :=
  Instant.add_sub_add r.stop r.start d

@[simp] theorem gapTo_shift (r next : Range) : (r.shift d).gapTo (next.shift d) = r.gapTo next :=
  Instant.add_sub_add next.start r.stop d

/-- Moved ranges are sorted as they were. -/
theorem notAfter_shift (a b : Range) : notAfter (a.shift d) (b.shift d) = notAfter a b := by
  rw [Bool.eq_iff_iff]
  simp only [notAfter, start_shift, stop_shift, Instant.nanos_add, Bool.or_eq_true,
    Bool.and_eq_true, decide_eq_true_eq, beq_iff_eq, Int.add_lt_add_iff_right,
    Int.add_le_add_iff_right, Int.add_left_inj]

/-- Moved ranges extend one another to the moved range. -/
theorem extend_shift (r next : Range) :
    (r.shift d).extend (next.shift d) = (r.extend next).shift d := by
  simp only [extend, shift, Instant.max_add]

/-! Tests for gaps that do not see the move. -/

section Merging

variable {gap : Span} {passes passes' : Range → Range → Bool}

/-- Moved ranges join if they did, for a test that does not see the move. -/
theorem joins_shift (hpasses : ∀ a b, passes' (a.shift d) (b.shift d) = passes a b)
    (r next : Range) : joins gap passes' (r.shift d) (next.shift d) = joins gap passes r next := by
  rw [joins, joins, gapTo_shift, hpasses]

/-- Along moved ranges the same neighbours join. -/
theorem coalesce_shift (hpasses : ∀ a b, passes' (a.shift d) (b.shift d) = passes a b)
    (r : Range) (ranges : List Range) :
    coalesce gap passes' (r.shift d) (ranges.map (shift d)) =
      (coalesce gap passes r ranges).map (shift d) := by
  induction ranges generalizing r with
  | nil => rfl
  | cons next rest ih =>
      rw [List.map_cons, coalesce, coalesce, joins_shift hpasses]
      split
      · rw [extend_shift, ih]
      · rw [ih, List.map_cons]

/-- Moved ranges are joined to the moved ranges. -/
theorem mergeWith_shift (hpasses : ∀ a b, passes' (a.shift d) (b.shift d) = passes a b)
    (ranges : List Range) :
    mergeWith gap passes' (ranges.map (shift d)) =
      (mergeWith gap passes ranges).map (shift d) := by
  -- ranges keep their order, so they are walked along in the same order
  have hsort : (ranges.map (shift d)).mergeSort notAfter =
      (ranges.mergeSort notAfter).map (shift d) :=
    (List.map_mergeSort fun a _ b _ => (notAfter_shift a b).symm).symm
  rw [mergeWith, mergeWith, hsort]
  cases ranges.mergeSort notAfter with
  | nil => rfl
  | cons r rest => exact coalesce_shift hpasses r rest

theorem merge_shift (gap : Span) (ranges : List Range) :
    merge gap (ranges.map (shift d)) = (merge gap ranges).map (shift d) :=
  mergeWith_shift (fun _ _ => rfl) ranges

end Merging

/-- Moved ranges last as long as before. -/
theorem atLeast_shift (shortest : Span) (ranges : List Range) :
    atLeast shortest (ranges.map (shift d)) = (atLeast shortest ranges).map (shift d) := by
  have htest : ((fun r => decide (shortest ≤ r.length)) ∘ shift d : Range → Bool) =
      fun r => decide (shortest ≤ r.length) := funext fun r => by
    rw [Function.comp_apply, length_shift]
  rw [atLeast, List.filter_map, htest, atLeast]

/-- What trails goes on trailing when the present moves along. -/
theorem isTrailing_shift (lastStop askedStop now : Instant) (gap : Span) :
    isTrailing (lastStop + d) (askedStop + d) (now + d) gap =
      isTrailing lastStop askedStop now gap := by
  rw [isTrailing, isTrailing, Instant.add_sub_add, Instant.add_sub_add]

end Range

/-! ## Segments -/

namespace Segment

/-- The segment moved by a length of time: its duration and its flags stay. -/
def shift (d : Span) (s : Segment) : Segment :=
  { s with start := s.start + d, stop := s.stop.map fun t => t + d }

/-- A finished segment of moved instants is the moved segment, and there is none where there was
none. -/
theorem closed?_shift (start stop : Instant) (before : Bool) :
    closed? (start + d) (stop + d) before = (closed? start stop before).map (shift d) := by
  rw [closed?, closed?, Instant.add_sub_add]
  by_cases h : start < stop
  · rw [if_pos h, if_pos ((Instant.add_lt_add_iff start stop d).2 h)]
    rfl
  · rw [if_neg h, if_neg (mt (Instant.add_lt_add_iff start stop d).1 h)]
    rfl

/-- A segment in progress moves with the end of the asked range, up to which its duration is told.
-/
theorem ongoing_shift (start askedStop : Instant) (before : Bool) :
    ongoing (start + d) (askedStop + d) before = (ongoing start askedStop before).shift d := by
  rw [ongoing, Instant.add_sub_add]
  rfl

/-- Moved segments are reported with the same durations. -/
theorem atLeast_shift (shortest : Span) (segments : List Segment) :
    atLeast shortest (segments.map (shift d)) = (atLeast shortest segments).map (shift d) := by
  rw [atLeast, List.filter_map]
  rfl

/-- Rules for ranges that pass the move on build the moved segments. -/
theorem ofRanges_shift {inner inner' last last' : Range → Option Segment}
    (hinner : ∀ r, inner' (r.shift d) = (inner r).map (shift d))
    (hlast : ∀ r, last' (r.shift d) = (last r).map (shift d)) (ranges : List Range) :
    ofRanges inner' last' (ranges.map (Range.shift d)) =
      (ofRanges inner last ranges).map (shift d) := by
  induction ranges with
  | nil => rfl
  | cons r rest ih =>
      cases rest with
      | nil =>
          rw [List.map_cons, List.map_nil, ofRanges, ofRanges, hlast, Option.toList_map]
      | cons next rest =>
          rw [List.map_cons, List.map_cons, ofRanges, ← List.map_cons, ih, hinner, ofRanges,
            List.map_append, Option.toList_map]

variable (asked r : Range)

/-- A moved range, cut at both ends of the moved asked range, is the moved segment. -/
theorem clipped_shift :
    clipped (asked.shift d) (r.shift d) = (clipped asked r).map (shift d) := by
  simp only [clipped, Range.start_shift, Range.stop_shift, Instant.max_add, Instant.min_add,
    Instant.add_lt_add_iff, closed?_shift]

theorem clippedOngoing_shift :
    clippedOngoing (asked.shift d) (r.shift d) = (clippedOngoing asked r).map (shift d) := by
  simp only [clippedOngoing, Range.start_shift, Range.stop_shift, Instant.max_add,
    Instant.add_lt_add_iff, ongoing_shift]
  split <;> rfl

/-- So it is when it is cut at the end only. -/
theorem capped_shift : capped (asked.shift d) (r.shift d) = (capped asked r).map (shift d) := by
  simp only [capped, Range.start_shift, Range.stop_shift, Instant.min_add,
    Instant.add_lt_add_iff, closed?_shift]

theorem cappedOngoing_shift :
    cappedOngoing (asked.shift d) (r.shift d) = (cappedOngoing asked r).map (shift d) := by
  simp only [cappedOngoing, Range.start_shift, Range.stop_shift, Instant.add_lt_add_iff,
    ongoing_shift, Option.map_some]

/-- Moved ranges, cut to the moved range, are the moved segments. -/
theorem clip_shift (lastOngoing : Bool) (ranges : List Range) :
    clip (asked.shift d) lastOngoing (ranges.map (Range.shift d)) =
      (clip asked lastOngoing ranges).map (shift d) := by
  cases lastOngoing with
  | false => exact ofRanges_shift (clipped_shift asked) (clipped_shift asked) ranges
  | true => exact ofRanges_shift (clipped_shift asked) (clippedOngoing_shift asked) ranges

/-- Moved ranges that keep their starts are the moved segments. -/
theorem keepStarts_shift (lastOngoing : Bool) (ranges : List Range) :
    keepStarts (asked.shift d) lastOngoing (ranges.map (Range.shift d)) =
      (keepStarts asked lastOngoing ranges).map (shift d) := by
  cases lastOngoing with
  | false => exact ofRanges_shift (capped_shift asked) (capped_shift asked) ranges
  | true => exact ofRanges_shift (capped_shift asked) (cappedOngoing_shift asked) ranges

end Segment

/-! ## Runs of activity -/

namespace Activity

/-- The runs moved by a length of time. -/
def shift (d : Span) (a : Activity) : Activity := ⟨a.runs.map (Range.shift d), a.lastOngoing⟩

variable (asked : Range) (now : Instant) (gap minDuration : Span) (runs active : List Range)

/-- The moved runs that count for the moved range are those that counted, moved. -/
theorem relevant_shift :
    relevant (asked.shift d) minDuration (runs.map (Range.shift d)) =
      (relevant asked minDuration runs).map (Range.shift d) := by
  have htest : ((fun r => decide ((asked.shift d).start < r.stop)) ∘ Range.shift d :
      Range → Bool) = fun r => decide (asked.start < r.stop) := funext fun r => by
    rw [Function.comp_apply, decide_eq_decide]
    exact Instant.add_lt_add_iff asked.start r.stop d
  rw [relevant, Range.atLeast_shift, List.filter_map, htest, relevant]

/-- The last run trails if it did. -/
theorem lastTrails_shift :
    lastTrails (asked.shift d) (now + d) gap (runs.map (Range.shift d)) =
      lastTrails asked now gap runs := by
  rw [lastTrails, lastTrails, List.getLast?_map]
  cases runs.getLast? with
  | none => rfl
  | some r => exact Range.isTrailing_shift r.stop asked.stop now gap

/-- Moved stretches grow together to the moved runs. -/
theorem ofStretches_shift :
    ofStretches (asked.shift d) (now + d) gap minDuration (active.map (Range.shift d)) =
      (ofStretches asked now gap minDuration active).shift d := by
  simp only [ofStretches, shift, Range.merge_shift, relevant_shift, lastTrails_shift]

theorem keepStarts_shift (a : Activity) :
    (a.shift d).keepStarts (asked.shift d) minDuration =
      (a.keepStarts asked minDuration).map (Segment.shift d) := by
  rw [keepStarts, shift, Segment.keepStarts_shift, Segment.atLeast_shift, keepStarts]

/-- Moved runs are reported as the moved segments. -/
theorem clip_shift (a : Activity) :
    (a.shift d).clip (asked.shift d) minDuration =
      (a.clip asked minDuration).map (Segment.shift d) := by
  rw [clip, shift, Segment.clip_shift, Segment.atLeast_shift, clip]

end Activity

/-! ## Samples -/

/-- The sample moved by a length of time. -/
def Sample.shift {α : Type} (d : Span) (s : Sample α) : Sample α := { s with time := s.time + d }

namespace Series

variable {α : Type} (samples : List (Sample α))

theorem map_value_shift : (samples.map (Sample.shift d)).map Sample.value =
    samples.map Sample.value := by
  rw [List.map_map]
  rfl

/-- The samples up to a moved instant are those up to the instant, moved. -/
theorem upTo_shift (t : Instant) :
    upTo (t + d) (samples.map (Sample.shift d)) = (upTo t samples).map (Sample.shift d) := by
  have htest : ((fun s => decide (s.time ≤ t + d)) ∘ Sample.shift d : Sample α → Bool) =
      fun s => decide (s.time ≤ t) := funext fun s => by
    rw [Function.comp_apply, decide_eq_decide]
    exact Instant.add_le_add_iff s.time t d
  rw [upTo, List.takeWhile_map, htest, upTo]

/-- The value that is looked up at a moved instant stays. -/
theorem valueAtOrBefore_shift (t : Instant) :
    valueAtOrBefore (t + d) (samples.map (Sample.shift d)) = valueAtOrBefore t samples := by
  rw [valueAtOrBefore, upTo_shift, List.getLast?_map, Option.map_map, valueAtOrBefore]
  rfl

/-- The samples in a moved range are those in the range, moved. -/
theorem within_shift (start stop : Instant) :
    within (start + d) (stop + d) (samples.map (Sample.shift d)) =
      (within start stop samples).map (Sample.shift d) := by
  have htest : ((fun s => decide (s.time < start + d)) ∘ Sample.shift d : Sample α → Bool) =
      fun s => decide (s.time < start) := funext fun s => by
    rw [Function.comp_apply, decide_eq_decide]
    exact Instant.add_lt_add_iff s.time start d
  rw [within, List.dropWhile_map, htest, upTo_shift, within]

/-- The first and the last value in a moved range stay. -/
theorem firstLast_shift (start stop : Instant) :
    firstLast (start + d) (stop + d) (samples.map (Sample.shift d)) =
      firstLast start stop samples := by
  rw [firstLast, firstLast, within_shift, List.head?_map, List.getLast?_map]
  cases (within start stop samples).head? with
  | none => rfl
  | some first =>
      cases (within start stop samples).getLast? with
      | none => rfl
      | some last => rfl

end Series

end Telematics
