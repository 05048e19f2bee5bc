import Telematics.Proofs.DetectedSegments
import Telematics.Proofs.GuardedSteps
import Telematics.Proofs.Outcomes
import Telematics.Proofs.ShiftedReads

/-!
# Detection in moved answers

What the detectors find in moved samples, windows and changes is what they find in those that have
not moved, moved. Most of a detector only compares and subtracts instants, so that any length of
time will do; a walk that carries a state is inducted with the state generalized, and the state
moves along. Two scans are aligned to whole minutes, that of the refuels and that of the second
mechanism of `Arrivals`; they move along with whole minutes as long as the range, with its margins,
is in the calendar before and after (`Request.StaysRoomy`).
-/

set_option autoImplicit false

namespace Telematics

variable {d : Span} {k : Int}

/-! ## Requests -/

namespace Request

/-- The same request for the moved range. -/
def shift (d : Span) (r : Request) : Request := { r with asked := r.asked.shift d }

/-- A request is accepted and has its margins in the calendar, before and after a move. -/
structure StaysRoomy (d : Span) (now : Instant) (r : Request) : Prop where
  before : r.Roomy now
  after : (r.shift d).Roomy (now + d)

/-- An instant that the margins of 25 hours reach is in the calendar before and after. -/
theorem StaysRoomy.stays {now t : Instant} {r : Request} (hr : r.StaysRoomy d now)
    (hlow : r.asked.start.nanos ≤ t.nanos + 90000000000000)
    (hhigh : t.nanos ≤ r.asked.stop.nanos + 90000000000000) : t.Stays d := by
  refine ⟨hr.before.inCalendar hlow hhigh, hr.after.inCalendar ?_ ?_⟩
  · show r.asked.start.nanos + d ≤ t.nanos + d + 90000000000000
    rw [Int.add_right_comm]
    exact Int.add_le_add_right hlow d
  · show t.nanos + d ≤ r.asked.stop.nanos + d + 90000000000000
    rw [Int.add_right_comm]
    exact Int.add_le_add_right hhigh d

/-- An instant up to 25 hours before the range stays. -/
theorem StaysRoomy.stays_back {now : Instant} {r : Request} (hr : r.StaysRoomy d now) {n : Int}
    (h0 : 0 ≤ n) (h : n ≤ 90000) : (r.asked.start - Span.seconds n).Stays d := by
  have hascending := hr.before.ascending
  rw [Instant.lt_iff] at hascending
  apply hr.stays <;> simp only [Instant.nanos_sub, Span.seconds] <;> omega

/-- The start of the range stays. -/
theorem StaysRoomy.start {now : Instant} {r : Request} (hr : r.StaysRoomy d now) :
    r.asked.start.Stays d := by
  have hascending := hr.before.ascending
  rw [Instant.lt_iff] at hascending
  exact hr.stays (by omega) (by omega)

/-- So does its end. -/
theorem StaysRoomy.stop {now : Instant} {r : Request} (hr : r.StaysRoomy d now) :
    r.asked.stop.Stays d := by
  have hascending := hr.before.ascending
  rw [Instant.lt_iff] at hascending
  exact hr.stays (by omega) (by omega)

end Request

/-! ## Trips from arrivals -/

namespace Arrivals

theorem map_range_shift (found : List Window) :
    (found.map (Window.shift d)).map Window.range =
      (found.map Window.range).map (Range.shift d) := by
  rw [List.map_map, List.map_map]
  rfl

/-- Moved stretches are found to be the moved trips. -/
theorem segmentsOf_shift (r : Request) (now : Instant) (active : List Range) :
    segmentsOf (r.shift d) (now + d) (active.map (Range.shift d)) =
      (segmentsOf r now active).map (Segment.shift d) := by
  rw [segmentsOf, Request.shift, Activity.ofStretches_shift, Activity.keepStarts_shift, segmentsOf]

/-- Moved slots have the same counts, since each still meets the window that starts with it. -/
theorem dense_shift (slots : List Instant) (windows : List Window) :
    dense (slots.map fun (t : Instant) => t + d) (windows.map (Window.shift d)) =
      dense slots windows := by
  induction slots generalizing windows with
  | nil => rfl
  | cons slot later ih =>
      have htest : ((fun w => decide (w.start < slot + d)) ∘ Window.shift d : Window → Bool) =
          fun w => decide (w.start < slot) := funext fun w => by
        rw [Function.comp_apply, decide_eq_decide]
        exact Instant.add_lt_add_iff w.start slot d
      -- the same windows are passed over, and the next one is that of the slot or it is not
      rw [List.map_cons, dense, dense, List.dropWhile_map, htest]
      cases windows.dropWhile fun w => decide (w.start < slot) with
      | nil => exact congrArg _ (ih [])
      | cons w rest =>
          have hsame := Instant.add_inj w.start slot d
          simp only [List.map_cons, Window.shift] at ih ⊢
          by_cases h : w.start = slot
          · rw [if_pos h, if_pos (hsame.2 h), ih]
          · rw [if_neg h, if_neg (mt hsame.1 h)]
            exact congrArg _ (ih (w :: rest))

/-- So the same slots are active. -/
theorem activeSlots_shift (slots : List Instant) (windows : List Window) :
    activeSlots (slots.map fun (t : Instant) => t + d) (windows.map (Window.shift d)) =
      (activeSlots slots windows).map (Range.shift d) := by
  rw [activeSlots, dense_shift, List.zip_map_left, List.filter_map, List.map_map, activeSlots,
    List.map_map]
  apply List.map_congr_left
  rintro ⟨slot, high⟩ _
  simp only [Function.comp_apply, Prod.map_apply, Range.shift, Instant.add_add_comm]

variable {now : Instant} {r : Request}

/-- The gap tolerance does not lead out of the calendar. -/
theorem stays_lookback (hr : r.StaysRoomy d now) :
    (r.asked.start - gap r.tuning).Stays d := by
  obtain ⟨hlow, hhigh⟩ := gapSeconds_bounds hr.before.allowed
  exact hr.stays_back (by omega) (by omega)

theorem stays_lookbackStart (hr : r.StaysRoomy (Span.minutes k) now) :
    (lookbackStart r).Stays (Span.minutes k) := (stays_lookback hr).alignDown

/-- The first slot moves along, if by whole minutes. -/
theorem lookbackStart_shift (hr : r.StaysRoomy (Span.minutes k) now) :
    lookbackStart (r.shift (Span.minutes k)) = lookbackStart r + Span.minutes k := by
  rw [lookbackStart, Request.shift, Range.start_shift, Instant.add_sub_comm]
  exact Instant.alignDown_add_minutes (stays_lookback hr)

/-- So do all slots. -/
theorem slots_shift (hr : r.StaysRoomy (Span.minutes k) now) :
    slots (r.shift (Span.minutes k)) =
      (slots r).map fun (t : Instant) => t + Span.minutes k := by
  rw [slots, lookbackStart_shift hr, Request.shift, Range.stop_shift, Instant.every_add, slots]

end Arrivals

/-! ## Idling -/

namespace Idling

/-- The walk along moved samples grows the moved runs, from the moved run on that it carries. -/
theorem growRuns_shift (ceiling : Float) (gap : Span) (run : Option Range)
    (samples : List (Sample Float)) :
    growRuns ceiling gap (run.map (Range.shift d)) (samples.map (Sample.shift d)) =
      (growRuns ceiling gap run samples).map (Range.shift d) := by
  induction samples generalizing run with
  | nil => cases run <;> rfl
  | cons s later ih =>
      have hvalue : (s.shift d).value = s.value := rfl
      -- the walk goes on with a new run, with none, or with the present one made longer
      have hfresh : growRuns ceiling gap (some ⟨(s.shift d).time, (s.shift d).time⟩)
            (later.map (Sample.shift d)) =
          (growRuns ceiling gap (some ⟨s.time, s.time⟩) later).map (Range.shift d) :=
        ih (some ⟨s.time, s.time⟩)
      have hended := ih none
      rw [Option.map_none] at hended
      cases run with
      | none =>
          simp only [List.map_cons, Option.map_none, growRuns, hvalue, hfresh, hended]
          split <;> rfl
      | some r =>
          have hgap : ((s.shift d).time - (r.shift d).stop : Span) = s.time - r.stop :=
            Instant.add_sub_add s.time r.stop d
          have hgrown : growRuns ceiling gap (some ⟨(r.shift d).start, (s.shift d).time⟩)
                (later.map (Sample.shift d)) =
              (growRuns ceiling gap (some ⟨r.start, s.time⟩) later).map (Range.shift d) :=
            ih (some ⟨r.start, s.time⟩)
          simp only [List.map_cons, Option.map_some, growRuns, hvalue, hgap, hgrown, hfresh, hended]
          split
          · split <;> rfl
          · rfl

theorem runs_shift (ceiling : Float) (gap : Span) (samples : List (Sample Float)) :
    runs ceiling gap (samples.map (Sample.shift d)) =
      (runs ceiling gap samples).map (Range.shift d) := growRuns_shift ceiling gap none samples

/-- Whether the engine is still idling is a matter of values. -/
theorem stillIdle_shift (ceiling : Float) (samples : List (Sample Float)) :
    stillIdle ceiling (samples.map (Sample.shift d)) = stillIdle ceiling samples := by
  rw [stillIdle, stillIdle, List.getLast?_map]
  cases samples.getLast? with
  | none => rfl
  | some s => rfl

/-- Idling is found in moved samples as the moved segments. -/
theorem segments_shift (r : Request) (now : Instant) (samples : List (Sample Float)) :
    segments (r.shift d) (now + d) (samples.map (Sample.shift d)) =
      (segments r now samples).map (Segment.shift d) := by
  simp only [segments, Request.shift, runs_shift, stillIdle_shift, Activity.relevant_shift,
    Activity.lastTrails_shift]
  exact Activity.clip_shift r.asked (minDuration r.tuning) ⟨_, _⟩

/-- Idling is found in moved windows as the moved segments. -/
theorem windowSegments_shift (r : Request) (now : Instant) (found : List Window) :
    windowSegments (r.shift d) (now + d) (found.map (Window.shift d)) =
      (windowSegments r now found).map (Segment.shift d) := by
  rw [windowSegments, Arrivals.map_range_shift, Request.shift, Activity.ofStretches_shift,
    Activity.clip_shift, windowSegments]

end Idling

/-! ## Trips from the ignition -/

/-- The trip moved by a length of time. -/
def Trip.shift (d : Span) (trip : Trip) : Trip :=
  ⟨trip.start + d, trip.stop.map fun t => t + d⟩

namespace Ignition

theorem nextOn_shift (changes : List StateChange) :
    nextOn (changes.map (StateChange.shift d)) =
      (nextOn changes).map fun (t : Instant) => t + d := by
  rw [nextOn, List.find?_map, Option.map_map, nextOn, Option.map_map]
  rfl

/-- An off that is soon followed by an on still is. -/
theorem isBlip_shift (minIdle : Span) (c : StateChange) (later : List StateChange) :
    isBlip minIdle (c.shift d) (later.map (StateChange.shift d)) = isBlip minIdle c later := by
  have hoff : (c.shift d).isOff = c.isOff := rfl
  rw [isBlip, isBlip, nextOn_shift, hoff]
  cases nextOn later with
  | none => rfl
  | some t => simp only [Option.map_some, Option.any_some, StateChange.shift, Instant.add_sub_add]

/-- So the same changes are passed over. -/
theorem debounce_shift (minIdle : Span) (changes : List StateChange) :
    debounce minIdle (changes.map (StateChange.shift d)) =
      (debounce minIdle changes).map (StateChange.shift d) := by
  induction changes with
  | nil => rfl
  | cons c later ih =>
      rw [List.map_cons, debounce, debounce, isBlip_shift, ih]
      split <;> rfl

/-- The walk along moved changes pairs them to the moved trips, with the open trip moved along. -/
theorem pair_shift (start : Option Instant) (changes : List StateChange) :
    pair (start.map fun (t : Instant) => t + d) (changes.map (StateChange.shift d)) =
      (pair start changes).map (Trip.shift d) := by
  induction changes generalizing start with
  | nil => cases start <;> rfl
  | cons c later ih =>
      have hopens : opens (c.shift d) = opens c := rfl
      have hoff : (c.shift d).isOff = c.isOff := rfl
      cases start with
      | none =>
          simp only [List.map_cons, Option.map_none, pair, hopens, ← ih]
          split <;> rfl
      | some t =>
          have hclosed := ih none
          have hopen := ih (some t)
          simp only [Option.map_none, Option.map_some] at hclosed hopen
          simp only [List.map_cons, Option.map_some, pair, hoff, hclosed, hopen]
          split <;> rfl

theorem trips_shift (minIdle : Span) (changes : List StateChange) :
    trips minIdle (changes.map (StateChange.shift d)) =
      (trips minIdle changes).map (Trip.shift d) := by
  rw [trips, debounce_shift]
  exact pair_shift none (debounce minIdle changes)

/-- A moved trip is reported as the moved segment, or not at all as before. -/
theorem segment?_shift (asked : Range) (minDuration : Span) (trip : Trip) :
    segment? (asked.shift d) minDuration (trip.shift d) =
      (segment? asked minDuration trip).map (Segment.shift d) := by
  obtain ⟨start, stop⟩ := trip
  cases stop with
  | none =>
      simp only [segment?, Trip.shift, Option.map_none, Range.start_shift, Range.stop_shift,
        Instant.add_sub_add, Instant.add_lt_add_iff, Segment.ongoing_shift]
      split <;> rfl
  | some stop =>
      simp only [segment?, Trip.shift, Option.map_some, Range.start_shift, Instant.add_sub_add,
        Instant.add_lt_add_iff, Instant.add_le_add_iff, Segment.closed?_shift]
      split <;> rfl

/-- Trips are found in moved changes as the moved segments. -/
theorem segments_shift (asked : Range) (tuning : Tuning) (changes : List StateChange) :
    segments (asked.shift d) tuning (changes.map (StateChange.shift d)) =
      (segments asked tuning changes).map (Segment.shift d) := by
  rw [segments, trips_shift, List.filterMap_map, segments, List.map_filterMap]
  exact congrArg (List.filterMap · _) (funext (segment?_shift asked _))

end Ignition

/-! ## Refuels -/

variable {α : Type}

namespace Cursor

/-- The place in the moved series. -/
def shift (d : Span) (c : Cursor α) : Cursor α :=
  ⟨c.earlier.map (Sample.shift d), c.here.shift d, c.later.map (Sample.shift d)⟩

variable [Level α]

/-- The walk down ends at the same sample. -/
theorem sink_shift (limit : Instant) (earlier : List (Sample α)) (here : Sample α)
    (later : List (Sample α)) :
    sink (limit + d) (earlier.map (Sample.shift d)) (here.shift d) (later.map (Sample.shift d)) =
      (sink limit earlier here later).shift d := by
  induction later generalizing earlier here with
  | nil => rfl
  | cons next later ih =>
      have hnext := ih (here :: earlier) next
      simp only [List.map_cons, Sample.shift] at hnext
      simp only [List.map_cons, sink, Sample.shift, Instant.add_le_add_iff]
      split
      · exact hnext
      · rfl

/-- So does the walk back. -/
theorem fallBack_shift (here : Sample α) (later earlier : List (Sample α)) :
    fallBack (here.shift d) (later.map (Sample.shift d)) (earlier.map (Sample.shift d)) =
      (fallBack here later earlier).shift d := by
  induction earlier generalizing here later with
  | nil => rfl
  | cons before earlier ih =>
      have hbefore := ih before (here :: later)
      simp only [List.map_cons, Sample.shift] at hbefore
      simp only [List.map_cons, fallBack, Sample.shift]
      split
      · exact hbefore
      · rfl

/-- The trough is found at the same sample. -/
theorem trough_shift (limit : Instant) (c : Cursor α) :
    (c.shift d).trough (limit + d) = (c.trough limit).shift d := by
  rw [trough, trough, ← fallBack_shift, shift, sink_shift]
  rfl

/-- So is the peak: the search is limited by a moved instant and otherwise compares levels. -/
theorem peak_shift (limit : Instant) (best : Sample α) (samples : List (Sample α)) :
    peak (limit + d) (best.shift d) (samples.map (Sample.shift d)) =
      (peak limit best samples).shift d := by
  induction samples generalizing best with
  | nil => rfl
  | cons s later ih =>
      have hhere := ih best
      have hthere := ih s
      simp only [Sample.shift] at hhere hthere
      simp only [List.map_cons, peak, Sample.shift, Instant.add_lt_add_iff, hhere, hthere]
      split
      · rfl
      · split
        · rfl
        · split <;> rfl

end Cursor

namespace Refuel

theorem levelAtEnd_shift (stop : Instant) (c : Cursor α) :
    levelAtEnd (stop + d) (c.shift d) = levelAtEnd stop c := by
  rw [levelAtEnd, levelAtEnd, Cursor.shift, Series.upTo_shift, List.getLast?_map]
  cases (Series.upTo stop c.later).getLast? with
  | none => rfl
  | some s => rfl

/-- The moved samples are split at the moved instant as they were. -/
theorem advance_shift (t : Instant) (earlier later : List (Sample α)) :
    advance (t + d) (earlier.map (Sample.shift d)) (later.map (Sample.shift d)) =
      ((advance t earlier later).1.map (Sample.shift d),
        (advance t earlier later).2.map (Sample.shift d)) := by
  induction later generalizing earlier with
  | nil => rfl
  | cons s later ih =>
      have hpast := ih (s :: earlier)
      simp only [List.map_cons, Sample.shift] at hpast
      simp only [List.map_cons, advance, Sample.shift, Instant.add_le_add_iff]
      split
      · exact hpast
      · rfl

theorem cursorAt_shift (earlier later : List (Sample α)) :
    cursorAt (earlier.map (Sample.shift d)) (later.map (Sample.shift d)) =
      (cursorAt earlier later).map (Cursor.shift d) := by
  cases earlier with
  | nil => rfl
  | cons s before => rfl

variable [Level α]

/-- A moved window shows the moved refuel. -/
theorem inWindow_shift (stop : Instant) (leastIncrease : α) (minDuration : Span) (c : Cursor α) :
    inWindow (stop + d) leastIncrease minDuration (c.shift d) =
      (inWindow stop leastIncrease minDuration c).map (Range.shift d) := by
  have hvalue : (c.shift d).here.value = c.here.value := rfl
  have hpeak : Cursor.peak (stop + d + peakSearch) ((c.trough stop).shift d).here
      ((c.trough stop).shift d).later =
        (Cursor.peak (stop + peakSearch) (c.trough stop).here (c.trough stop).later).shift d := by
    rw [Instant.add_add_comm]
    exact Cursor.peak_shift (stop + peakSearch) (c.trough stop).here (c.trough stop).later
  have hlength : ∀ a b : Instant, (⟨a + d, b + d⟩ : Range).length = (⟨a, b⟩ : Range).length :=
    fun a b => Range.length_shift ⟨a, b⟩
  -- all tests look at levels and at the length of what is found, and these stay
  simp only [inWindow, hvalue, levelAtEnd_shift, Cursor.trough_shift, hpeak]
  simp only [Cursor.shift, Sample.shift, hlength]
  split
  · rfl
  · split
    · rfl
    · split <;> rfl

/-- Window after window the moved refuels are shown. -/
theorem slide_shift (leastIncrease : α) (minDuration : Span) (earlier later : List (Sample α))
    (starts : List Instant) :
    slide leastIncrease minDuration (earlier.map (Sample.shift d)) (later.map (Sample.shift d))
        (starts.map fun (t : Instant) => t + d) =
      (slide leastIncrease minDuration earlier later starts).map (Range.shift d) := by
  induction starts generalizing earlier later with
  | nil => rfl
  | cons start starts ih =>
      rw [List.map_cons, slide, slide, advance_shift]
      obtain ⟨passed, ahead⟩ := advance start earlier later
      simp only [ih, List.map_append, cursorAt_shift, ← Option.toList_map]
      congr 2
      cases cursorAt passed ahead with
      | none => rfl
      | some c =>
          rw [Option.map_some, Option.bind_some, Option.bind_some, Instant.add_add_comm]
          exact inWindow_shift (start + windowLength) leastIncrease minDuration c

/-- The windows of the scan move along, if by whole minutes. -/
theorem windowStarts_shift {now : Instant} {r : Request}
    (hr : r.StaysRoomy (Span.minutes k) now) :
    windowStarts (r.asked.shift (Span.minutes k)) =
      (windowStarts r.asked).map fun (t : Instant) => t + Span.minutes k := by
  have hstays := hr.stays_back (show (0 : Int) ≤ 300 by decide) (by decide)
  have halign : (r.asked.start - windowLength + Span.minutes k).alignDown stepSeconds =
      (r.asked.start - windowLength).alignDown stepSeconds + Span.minutes k :=
    Instant.alignDown_add_minutes hstays
  rw [windowStarts, Range.start_shift, Range.stop_shift, Instant.add_sub_comm, halign,
    Instant.add_add_comm, Instant.every_add, windowStarts]

/-- Refuels are found in moved samples as the moved segments. -/
theorem segments_shift {now : Instant} {r : Request} (hr : r.StaysRoomy (Span.minutes k) now)
    (leastIncrease : α) (minDuration : Span) (samples : List (Sample α)) :
    segments (r.asked.shift (Span.minutes k)) leastIncrease minDuration
        (samples.map (Sample.shift (Span.minutes k))) =
      (segments r.asked leastIncrease minDuration samples).map
        (Segment.shift (Span.minutes k)) := by
  have hfinds : finds (r.asked.shift (Span.minutes k)) leastIncrease minDuration
        (samples.map (Sample.shift (Span.minutes k))) =
      (finds r.asked leastIncrease minDuration samples).map (Range.shift (Span.minutes k)) := by
    rw [finds, windowStarts_shift hr]
    exact slide_shift leastIncrease minDuration [] samples (windowStarts r.asked)
  rw [segments, segments, List.length_map]
  split
  · rfl
  · rw [hfinds, Range.merge_shift, Segment.clip_shift, Segment.atLeast_shift]

end Refuel

/-! ## Recharges -/

namespace Recharge

theorem between_shift (foot top : Nat) (samples : List (Sample α)) :
    between foot top (samples.map (Sample.shift d)) =
      (between foot top samples).map (Sample.shift d) := by
  rw [between, ← List.map_drop, ← List.map_take, between]

variable [Level α]

/-- The last lowest sample is the same one. -/
theorem lastLowest_shift (low : Sample α) (fromLow samples : List (Sample α)) :
    lastLowest (low.shift d) (fromLow.map (Sample.shift d)) (samples.map (Sample.shift d)) =
      ((lastLowest low fromLow samples).1.shift d,
        (lastLowest low fromLow samples).2.map (Sample.shift d)) := by
  induction samples generalizing low fromLow with
  | nil => rfl
  | cons s later ih =>
      have hsame := ih low fromLow
      have hlower := ih s later
      simp only [Sample.shift] at hsame hlower
      simp only [List.map_cons, lastLowest, Sample.shift, hsame, hlower]
      split <;> rfl

/-- So is the first highest. -/
theorem firstHighest_shift (high : Sample α) (samples : List (Sample α)) :
    firstHighest (high.shift d) (samples.map (Sample.shift d)) =
      (firstHighest high samples).shift d := by
  induction samples generalizing high with
  | nil => rfl
  | cons s later ih =>
      have hsame := ih high
      have hhigher := ih s
      simp only [Sample.shift] at hsame hhigher
      simp only [List.map_cons, firstHighest, Sample.shift, hsame, hhigher]
      split <;> rfl

theorem narrowed_shift (first : Sample α) (later : List (Sample α)) :
    narrowed (first.shift d) (later.map (Sample.shift d)) = (narrowed first later).shift d := by
  simp only [narrowed, lastLowest_shift, firstHighest_shift]
  rfl

/-- The moved odometer shows the vehicle parked in the same candidates. -/
theorem parkedDuring_shift (odometer : List (Sample α)) (r : Range) :
    parkedDuring (odometer.map (Sample.shift d)) (r.shift d) = parkedDuring odometer r := by
  rw [parkedDuring, Range.start_shift, Range.stop_shift, Series.firstLast_shift, parkedDuring]

/-- It bridges the same gaps. -/
theorem sameOdometer_shift (odometer : List (Sample α)) (a b : Range) :
    sameOdometer (odometer.map (Sample.shift d)) (a.shift d) (b.shift d) =
      sameOdometer odometer a b := by
  rw [sameOdometer, Range.stop_shift, Range.start_shift, Series.valueAtOrBefore_shift,
    Series.valueAtOrBefore_shift, sameOdometer]

theorem qualifies_shift (leastIncrease : α) (minDuration : Span) (smoothFoot smoothTop : α)
    (foot top : Sample α) :
    qualifies leastIncrease minDuration smoothFoot smoothTop (foot.shift d) (top.shift d) =
      qualifies leastIncrease minDuration smoothFoot smoothTop foot top := by
  have hlength : ((top.shift d).time - (foot.shift d).time : Span) = top.time - foot.time :=
    Instant.add_sub_add top.time foot.time d
  rw [qualifies, hlength]
  rfl

variable (charge odometer : List (Sample α)) (leastIncrease : α) (minDuration : Span)

/-- A climb is at the same positions, and is the moved candidate if it was one. -/
theorem candidate_shift (smoothed : List α) (climb : Nat × Nat) :
    candidate (charge.map (Sample.shift d)) (odometer.map (Sample.shift d)) smoothed leastIncrease
        minDuration climb =
      (candidate charge odometer smoothed leastIncrease minDuration climb).map
        (Range.shift d) := by
  rw [candidate, candidate, between_shift, List.getElem?_map]
  -- positions stay, so that either all four lookups succeed in both series or the same one fails
  cases smoothed[climb.1]? with
  | none => rfl
  | some smoothFoot =>
  cases smoothed[climb.2]? with
  | none => rfl
  | some smoothTop =>
  cases charge[climb.2]? with
  | none => rfl
  | some top =>
  cases between climb.1 climb.2 charge with
  | nil => rfl
  | cons foot later =>
      simp only [Option.map_some, List.map_cons, qualifies_shift, narrowed_shift,
        Range.length_shift, parkedDuring_shift]
      split
      · split <;> rfl
      · rfl

/-- The moved series have the moved candidates, or none as before. -/
theorem candidates_shift :
    candidates (charge.map (Sample.shift d)) (odometer.map (Sample.shift d)) leastIncrease
        minDuration =
      (candidates charge odometer leastIncrease minDuration).map (List.map (Range.shift d)) := by
  -- smoothing and climbs are about values, which stay
  rw [candidates, candidates, Series.map_value_shift, Option.map_map]
  congr 1
  funext climbs
  rw [Function.comp_apply, List.map_filterMap]
  apply List.filterMap_congr
  intro climb _
  exact candidate_shift charge odometer leastIncrease minDuration _ climb

/-- Moved candidates are reported as the moved segments. -/
theorem segmentsOf_shift (asked : Range) (found : List Range) :
    segmentsOf (asked.shift d) (odometer.map (Sample.shift d)) minDuration
        (found.map (Range.shift d)) =
      (segmentsOf asked odometer minDuration found).map (Segment.shift d) := by
  rw [segmentsOf, Range.mergeWith_shift (sameOdometer_shift odometer), Segment.clip_shift,
    Segment.atLeast_shift, segmentsOf]

end Recharge

end Telematics
