import Telematics.Proofs.ActivityRuns
import Telematics.Proofs.IdleRuns
import Telematics.Proofs.IgnitionTrips
import Telematics.Proofs.LogReads
import Telematics.Proofs.Outcomes
import Telematics.Proofs.SlotCounts
import Telematics.Proofs.ValidRequests
import Telematics.Service

/-!
# Detected segments are well formed

`Mechanism.Reports` says what a list of segments owes to the mechanism that found it: it is well
formed with the shortest duration of the request or of the mechanism, its segments start inside the
asked range or keep their own starts, and refuels and recharges are finished. Each mechanism is
settled by the way in which it finds its ranges: in order, and not so long that a duration could not
be reported. `reports_of_getSegments` puts the seven together for a service over a log.
-/

set_option autoImplicit false

namespace Telematics

/-! ## Trips from the ignition -/

namespace Ignition

/-- A reported trip that does not start too long before the end of the asked range, nor ends after
it, is a consistent segment and long enough. -/
theorem consistent_of_reported {asked : Range} {n : Int} {trip : Trip} {s : Segment} (hn : 0 < n)
    (hstart : asked.stop - trip.start ≤ Span.seconds Segment.longest)
    (hstop : ∀ stop, trip.stop = some stop → stop ≤ asked.stop)
    (h : reported asked (Span.seconds n) trip = some s) :
    s.Consistent asked ∧ n ≤ s.durationSeconds ∧ s.KeepsStart asked := by
  -- the same holds of the stop of the trip and of the end of the asked range
  have hduration : ∀ stop : Instant, stop ≤ asked.stop → Span.seconds n ≤ stop - trip.start →
      trip.start < stop ∧
        Segment.durationOf (stop - trip.start) = (stop - trip.start).wholeSeconds ∧
        n ≤ Segment.durationOf (stop - trip.start) := by
    intro stop hle hlong
    have hpos : (0 : Int) ≤ n := by omega
    have hlt : trip.start < stop :=
      Int.lt_of_sub_pos (Int.lt_of_lt_of_le (Int.mul_pos hn (by decide)) hlong)
    have hfits : stop - trip.start ≤ Span.seconds Segment.longest :=
      Int.le_trans (Int.sub_le_sub_right hle _) hstart
    have heq : Segment.durationOf (stop - trip.start) = (stop - trip.start).wholeSeconds :=
      Segment.durationOf_eq_wholeSeconds (Int.sub_nonneg_of_le (Int.le_of_lt hlt)) hfits
    refine ⟨hlt, heq, ?_⟩
    rw [heq]
    exact Span.le_wholeSeconds hpos hlong
  cases trip with
  | mk start stop =>
      cases stop with
      | none =>
          simp only [reported] at h
          split at h
          · rename_i hlong
            obtain rfl := Option.some.inj h
            obtain ⟨hlt, heq, hle⟩ := hduration asked.stop (Int.le_refl _) hlong
            exact ⟨⟨rfl, hlt, heq⟩, hle, decide_eq_true_iff⟩
          · exact absurd h (by simp)
      | some stop =>
          simp only [reported] at h
          split at h
          · rename_i hlong
            obtain rfl := Option.some.inj h
            have hle' : stop ≤ asked.stop := hstop stop rfl
            obtain ⟨hlt, heq, hle⟩ := hduration stop hle' hlong.2
            exact ⟨⟨rfl, hlt, hle', hlong.1, heq⟩, hle, decide_eq_true_iff⟩
          · exact absurd h (by simp)

/-- The segments from ascending changes between a day before the asked range and its end. -/
theorem wellFormed_segments {asked : Range} {tuning : Tuning} {changes : List StateChange}
    (hshort : asked.length ≤ Span.days 30) (hvalid : tuning.firstOutside = none)
    (hsorted : changes.Pairwise fun a b => a.time ≤ b.time)
    (hwithin : ∀ c ∈ changes, asked.start - lookback ≤ c.time ∧ c.time ≤ asked.stop) :
    Segment.WellFormed asked (tuning.minSegmentSeconds.getD defaultMinSegment)
        (segments asked tuning changes) ∧
      ∀ s ∈ segments asked tuning changes, s.KeepsStart asked := by
  have hdefault : Tunable.minSegment.allows defaultMinSegment = true := by decide
  have hminIdle : 0 ≤ tuning.minIdle defaultMinIdle :=
    Tuning.minIdle_nonneg hvalid (show Tunable.minIdle.allows defaultMinIdle = true by decide)
  have hreported : segments asked tuning changes =
      (trips (tuning.minIdle defaultMinIdle) changes).filterMap
        (reported asked (tuning.minSegment defaultMinSegment)) :=
    List.filterMap_congr fun trip _ =>
      segment?_eq_reported (Tuning.minSegment_pos hvalid hdefault) trip
  have hall : ∀ s ∈ segments asked tuning changes, s.Consistent asked ∧
      tuning.minSegmentSeconds.getD defaultMinSegment ≤ s.durationSeconds ∧
      s.KeepsStart asked := by
    intro s hs
    rw [hreported, List.mem_filterMap] at hs
    obtain ⟨trip, htrip, hs⟩ := hs
    rcases start_of_mem_pair htrip with hstart | ⟨c, hc, -, hctime⟩
    · exact absurd hstart (by simp)
    · -- the on is at most a day before the asked range, which is at most thirty days long
      have hn := (Tuning.minSegment_bounds hvalid hdefault).1
      refine consistent_of_reported hn ?_ (fun stop h => ?_) hs
      · have hfirst := (hwithin c hc).1
        rw [hctime, Instant.le_iff, Instant.nanos_sub] at hfirst
        rw [Range.length, Instant.sub_le_iff] at hshort
        rw [Instant.sub_le_iff]
        simp only [lookback, Span.hours, Span.days, Span.seconds, Segment.longest] at *
        omega
      · obtain ⟨d, hd, rfl⟩ := exists_stop_of_mem_pair htrip h
        exact (hwithin d hd).2
  refine ⟨⟨fun s hs => (hall s hs).1, ?_, fun s hs => (hall s hs).2.1⟩,
    fun s hs => (hall s hs).2.2⟩
  -- trips are apart, so a stop is never after the next start
  have htrips : (trips (tuning.minIdle defaultMinIdle) changes).Pairwise
      (Apart (tuning.minIdle defaultMinIdle)) := pairwise_pair hsorted
  rw [hreported] at hall ⊢
  apply (pairwise_reported htrips).imp_of_mem
  rintro a b ha - ⟨stop, hstop, hle⟩
  have hcons := (hall a ha).1
  rw [Segment.Consistent, hstop] at hcons
  have hafter : stop ≤ b.start := Int.le_of_sub_nonneg (Int.le_trans hminIdle hle)
  exact ⟨Int.lt_of_lt_of_le hcons.2.1 hafter, stop, hstop, hafter⟩

end Ignition

/-! ## Trips from arrivals -/

namespace Arrivals

variable {now : Instant} {r : Request}

/-- The gap tolerance lasts from one second to two hours. -/
theorem gapSeconds_bounds {t : Tuning} (hvalid : t.firstOutside = none) :
    1 ≤ t.maxGapSeconds.getD (t.minIdleSeconds.getD defaultGap) ∧
      t.maxGapSeconds.getD (t.minIdleSeconds.getD defaultGap) ≤ 7200 := by
  have hdefault : Tunable.minIdle.allows defaultGap = true := by decide
  obtain ⟨hlow, hhigh⟩ := Tuning.minIdle_bounds hvalid hdefault
  have hgap : Tunable.maxGap.allows (t.minIdleSeconds.getD defaultGap) = true := by
    rw [Tuning.allows_iff]
    exact ⟨Int.le_trans (by decide) hlow, Int.le_trans hhigh (by decide)⟩
  exact Tuning.maxGap_bounds hvalid hgap

theorem gap_nonneg {t : Tuning} (hvalid : t.firstOutside = none) : 0 ≤ gap t :=
  Int.mul_nonneg (Int.le_trans (by decide) (gapSeconds_bounds hvalid).1) (by decide)

/-- An instant less than two hours and two minutes before the asked range is not so long before its
end that the length could not be reported. -/
theorem length_le_of_start_le (hr : r.Accepted now) {t : Instant}
    (h : r.asked.start.nanos ≤ t.nanos + Span.seconds 7320) :
    r.asked.stop - t ≤ Span.seconds Segment.longest := by
  have hshort := hr.short
  rw [Range.length, Instant.sub_le_iff] at hshort
  rw [Instant.sub_le_iff]
  simp only [Span.days, Span.seconds, Segment.longest] at *
  omega

/-- A window that counts starts less than two minutes before the asked range. -/
theorem start_bounds_frequency {log : Log} {a : Range}
    (ha : a ∈ (log.windows r.token (frequencyQuery r)).map Window.range) :
    a.start < r.asked.stop ∧ r.asked.start.nanos ≤ a.start.nanos + Span.seconds 7320 := by
  obtain ⟨w, hw, rfl⟩ := List.mem_map.1 ha
  obtain ⟨hlength, hstart, hstop⟩ := Log.bounds_of_mem_windows (show (0 : Int) < 60 by decide) hw
  refine ⟨hstart, ?_⟩
  have halign := r.asked.start.lt_alignDown_add (show 0 < windowSeconds by decide)
  -- the window reaches into the aligned range, and is a minute long
  have hquery : (r.asked.start.alignDown windowSeconds).nanos < w.stop.nanos := hstop
  rw [hlength] at hquery
  show r.asked.start.nanos ≤ w.start.nanos + Span.seconds 7320
  simp only [frequencyQuery, WindowQuery.all, windowSeconds, Span.seconds] at *
  omega

/-- The second mechanism looks back by at most two hours and a minute. -/
theorem start_le_lookbackStart (hvalid : r.tuning.firstOutside = none) :
    r.asked.start.nanos ≤ (lookbackStart r).nanos + Span.seconds 7320 := by
  have halign := (r.asked.start - gap r.tuning).lt_alignDown_add (show 0 < windowSeconds by decide)
  have hgap := (gapSeconds_bounds hvalid).2
  show r.asked.start.nanos ≤ (lookbackStart r).nanos + 7320 * 1000000000
  simp only [lookbackStart, gap, Tuning.maxGap, windowSeconds, Span.seconds,
    Instant.nanos_sub] at *
  omega

/-- A minute that is looked at starts at most two hours and a minute before the asked range. -/
theorem start_bounds_changePoint (hvalid : r.tuning.firstOutside = none) {windows : List Window}
    {a : Range} (ha : a ∈ activeSlots (slots r) windows) :
    a.start < r.asked.stop ∧ r.asked.start.nanos ≤ a.start.nanos + Span.seconds 7320 := by
  obtain ⟨hstart, hstop⟩ := Instant.bounds_of_mem_every (by decide) (mem_of_mem_activeSlots ha).1
  exact ⟨hstop, Int.le_trans (start_le_lookbackStart hvalid) (Int.add_le_add_right hstart _)⟩

/-- Stretches that start less than two hours and two minutes before the asked range. -/
theorem wellFormed_segmentsOf (hr : r.Accepted now) {active : List Range}
    (hactive : ∀ a ∈ active, a.start < r.asked.stop ∧
      r.asked.start.nanos ≤ a.start.nanos + Span.seconds 7320) :
    Segment.WellFormed r.asked (r.tuning.minSegmentSeconds.getD defaultMinSegment)
        (segmentsOf r now active) ∧
      ∀ s ∈ segmentsOf r now active, s.KeepsStart r.asked :=
  Activity.wellFormed_keepStarts_ofStretches now (gap r.tuning) hr.ascending fun a ha =>
    ⟨(hactive a ha).1, length_le_of_start_le hr (hactive a ha).2⟩

theorem wellFormed_frequency (hr : r.Accepted now) (log : Log) :
    Segment.WellFormed r.asked (r.tuning.minSegmentSeconds.getD defaultMinSegment)
        (segmentsOf r now ((log.windows r.token (frequencyQuery r)).map Window.range)) ∧
      ∀ s ∈ segmentsOf r now ((log.windows r.token (frequencyQuery r)).map Window.range),
        s.KeepsStart r.asked :=
  wellFormed_segmentsOf hr fun _ ha => start_bounds_frequency ha

theorem wellFormed_changePoint (hr : r.Accepted now) (windows : List Window) :
    Segment.WellFormed r.asked (r.tuning.minSegmentSeconds.getD defaultMinSegment)
        (segmentsOf r now (activeSlots (slots r) windows)) ∧
      ∀ s ∈ segmentsOf r now (activeSlots (slots r) windows), s.KeepsStart r.asked :=
  wellFormed_segmentsOf hr fun _ ha => start_bounds_changePoint hr.allowed ha

end Arrivals

/-! ## All mechanisms -/

/-- The length of an accepted request can be reported. -/
theorem Request.Accepted.length_le {now : Instant} {r : Request} (hr : r.Accepted now) :
    r.asked.length ≤ Span.seconds Segment.longest :=
  Int.le_trans hr.short (by decide)

/-- The segments of idle samples. -/
theorem Idling.wellFormed_segments {now : Instant} {r : Request} (hr : r.Accepted now)
    {samples : List (Sample Float)} (hsorted : Series.Ascending samples) :
    Segment.WellFormed r.asked (r.tuning.minSegmentSeconds.getD defaultMinSegment)
        (segments r now samples) ∧
      ∀ s ∈ segments r now samples, s.StartsInside r.asked :=
  Activity.wellFormed_clip_relevant _ hr.length_le (pairwise_runs hsorted)

/-- The segments of idle minutes. -/
theorem Idling.wellFormed_windowSegments {now : Instant} {r : Request} (hr : r.Accepted now)
    (found : List Window) :
    Segment.WellFormed r.asked (r.tuning.minSegmentSeconds.getD defaultMinSegment)
        (windowSegments r now found) ∧
      ∀ s ∈ windowSegments r now found, s.StartsInside r.asked :=
  Activity.wellFormed_clip_relevant _ hr.length_le (Activity.pairwise_merge _ _)

/-- The segments of merged finds, all of them finished. -/
theorem Segment.wellFormed_merged {asked : Range} {n : Int} (gap : Span)
    (passes : Range → Range → Bool) (found : List Range)
    (hasked : asked.length ≤ Span.seconds longest) :
    WellFormed asked n
        (atLeast (Span.seconds n) (clip asked false (Range.mergeWith gap passes found))) ∧
      ∀ s ∈ atLeast (Span.seconds n) (clip asked false (Range.mergeWith gap passes found)),
        s.StartsInside asked ∧ s.isOngoing = false := by
  have horder := (Range.pairwise_mergeWith gap passes found).imp Int.le_of_lt
  obtain ⟨hwell, hstarts⟩ := wellFormed_clip false n hasked horder
  exact ⟨hwell, fun s hs => ⟨hstarts s hs, isOngoing_clip_false (List.mem_filter.1 hs).1⟩⟩

/-- The empty list of segments is well formed. -/
theorem Segment.wellFormed_nil (asked : Range) (n : Int) : WellFormed asked n [] :=
  ⟨by simp, .nil, by simp⟩

namespace Mechanism

/-- The default of the shortest segment, in seconds. -/
def defaultShortest : Mechanism → Int
  | ignition => Ignition.defaultMinSegment
  | frequency => Arrivals.defaultMinSegment
  | changePoint => Arrivals.defaultMinSegment
  | idling => Idling.defaultMinSegment
  | staticRpm => Idling.defaultMinSegment
  | refuel => Refuel.defaultMinSegment
  | recharge => Recharge.defaultMinSegment

/-- What a segment says of its start: trips keep their own, all others start inside the asked
range. -/
def Starts (m : Mechanism) (asked : Range) (s : Segment) : Prop :=
  match m with
  | ignition | frequency | changePoint => s.KeepsStart asked
  | idling | staticRpm | refuel | recharge => s.StartsInside asked

/-- The mechanism only finds what is over. -/
def onlyFinished : Mechanism → Bool
  | refuel | recharge => true
  | _ => false

/-- What the segments of a request owe to the mechanism that found them. -/
structure Reports (m : Mechanism) (r : Request) (segments : List Segment) : Prop where
  /-- They are well formed, with the shortest duration of the request or of the mechanism. -/
  wellFormed :
    Segment.WellFormed r.asked (r.tuning.minSegmentSeconds.getD m.defaultShortest) segments
  /-- They start as those of the mechanism do. -/
  starts : ∀ s ∈ segments, m.Starts r.asked s
  /-- They are finished if the mechanism only finds what is over. -/
  finished : m.onlyFinished = true → ∀ s ∈ segments, s.isOngoing = false

/-- What a mechanism finds in a log. -/
theorem reports_of_detect {log : Log} {now : Instant} {m : Mechanism} {r : Request}
    {segments : List Segment} (hr : r.Accepted now)
    (h : (m.detect log.source now r).outcome = .answer segments) : m.Reports r segments := by
  -- the others may find what is still in progress
  have hunfinished : ∀ m : Mechanism, m.onlyFinished = false → m.onlyFinished = true →
      ∀ s ∈ segments, s.isOngoing = false := by
    intro m hfalse htrue
    rw [hfalse] at htrue
    exact Bool.noConfusion htrue
  cases m with
  | ignition =>
      rw [Log.outcome_ignition] at h
      obtain rfl := Outcome.answer.inj h
      have hwithin : ∀ c ∈ log.ignitionChanges r,
          r.asked.start - Ignition.lookback ≤ c.time ∧ c.time ≤ r.asked.stop :=
        fun c hc => Log.time_of_mem_changes hc
      obtain ⟨hwell, hstarts⟩ := Ignition.wellFormed_segments hr.short hr.allowed
        (log.ascending_changes _ _ _) hwithin
      exact ⟨hwell, hstarts, hunfinished _ rfl⟩
  | frequency =>
      rw [Log.outcome_frequency] at h
      obtain rfl := Outcome.answer.inj h
      obtain ⟨hwell, hstarts⟩ := Arrivals.wellFormed_frequency hr log
      exact ⟨hwell, hstarts, hunfinished _ rfl⟩
  | changePoint =>
      rw [Log.outcome_changePoint] at h
      obtain rfl := Outcome.answer.inj h
      obtain ⟨hwell, hstarts⟩ := Arrivals.wellFormed_changePoint hr _
      exact ⟨hwell, hstarts, hunfinished _ rfl⟩
  | idling =>
      rw [Log.outcome_idling] at h
      obtain rfl := Outcome.answer.inj h
      obtain ⟨hwell, hstarts⟩ := Idling.wellFormed_segments hr (log.ascending_levels _ _ _)
      exact ⟨hwell, hstarts, hunfinished _ rfl⟩
  | staticRpm =>
      rw [Log.outcome_staticRpm] at h
      obtain rfl := Outcome.answer.inj h
      obtain ⟨hwell, hstarts⟩ := Idling.wellFormed_windowSegments hr _
      exact ⟨hwell, hstarts, hunfinished _ rfl⟩
  | refuel =>
      rw [Log.outcome_refuel, Refuel.segments] at h
      split at h
      · obtain rfl := Outcome.answer.inj h
        exact ⟨Segment.wellFormed_nil _ _, by simp, by simp⟩
      · obtain rfl := Outcome.answer.inj h
        obtain ⟨hwell, hall⟩ := Segment.wellFormed_merged 0 _ _ hr.length_le
        exact ⟨hwell, fun s hs => (hall s hs).1, fun _ s hs => (hall s hs).2⟩
  | recharge =>
      rw [Log.outcome_recharge] at h
      cases hanswer : Recharge.answer r.asked (log.charges r) (log.odometers r)
          (r.tuning.minIncrease Recharge.defaultIncrease)
          (r.tuning.minSegment Recharge.defaultMinSegment) with
      | none =>
          rw [hanswer] at h
          exact absurd h (by simp)
      | some found =>
          rw [hanswer] at h
          obtain rfl := Outcome.answer.inj h
          rw [Recharge.answer] at hanswer
          split at hanswer
          · obtain rfl := Option.some.inj hanswer
            exact ⟨Segment.wellFormed_nil _ _, by simp, by simp⟩
          · obtain ⟨candidates, -, rfl⟩ := Option.map_eq_some_iff.1 hanswer
            obtain ⟨hwell, hall⟩ := Segment.wellFormed_merged Recharge.longestGap _ _ hr.length_le
            exact ⟨hwell, fun s hs => (hall s hs).1, fun _ s hs => (hall s hs).2⟩

/-- Whatever a service over a log answers is well formed, and as it is due from the mechanism. -/
theorem reports_of_getSegments {log : Log} {now : Instant} {m : Mechanism} {r : Request}
    {segments : List Segment}
    (h : (Service.getSegments ⟨log.source, now⟩ m r).outcome = .answer segments) :
    m.Reports r segments := by
  rw [Service.getSegments] at h
  cases hrejection : r.rejection now with
  | some why =>
      rw [hrejection] at h
      exact absurd h (by simp [Call.rejected])
  | none =>
      rw [hrejection] at h
      exact reports_of_detect (Request.accepted_of_rejection_eq_none hrejection)
        (Call.outcome_ofRun_eq_answer_iff.1 h)

/-- The log of a vehicle whose ignition is on for ten minutes, and again after nineteen more. -/
def rideLog : Log :=
  ⟨[⟨42, Signal.ignition, .ofSeconds 0, 0.0⟩, ⟨42, Signal.ignition, .ofSeconds 60, 1.0⟩,
    ⟨42, Signal.ignition, .ofSeconds 660, 0.0⟩, ⟨42, Signal.ignition, .ofSeconds 1800, 1.0⟩]⟩

/-- The ride of these ten minutes, and the one that goes on. -/
def rides : List Segment :=
  [⟨.ofSeconds 60, some (.ofSeconds 660), 600, false, false⟩,
    ⟨.ofSeconds 1800, none, 5400, true, false⟩]

theorem segments_rideLog :
    Ignition.segments Ignition.twoHours.asked Ignition.twoHours.tuning
      (rideLog.ignitionChanges Ignition.twoHours) = rides := by
  have hrows : rideLog.rows 42 Signal.ignition =
      [⟨.ofSeconds 0, 0.0⟩, ⟨.ofSeconds 60, 1.0⟩, ⟨.ofSeconds 660, 0.0⟩, ⟨.ofSeconds 1800, 1.0⟩] :=
    Log.rows_eq_map (by decide) (by decide)
  show Ignition.segments _ _
    (Log.changesAfter _ _ (Series.upTo _ (rideLog.rows 42 Signal.ignition))) = _
  rw [hrows]
  decide +kernel

theorem outcome_rideLog :
    (Service.getSegments ⟨rideLog.source, .ofSeconds 7200⟩ .ignition Ignition.twoHours).outcome =
      .answer rides := by
  have hrejection : Ignition.twoHours.rejection (.ofSeconds 7200) = none := by decide
  rw [Service.getSegments, hrejection]
  exact congrArg Outcome.answer segments_rideLog

theorem reports_rides :
    (Service.getSegments ⟨rideLog.source, .ofSeconds 7200⟩ .ignition Ignition.twoHours).outcome =
        .answer rides ∧
      ignition.Reports Ignition.twoHours rides :=
  ⟨outcome_rideLog, reports_of_getSegments outcome_rideLog⟩

end Mechanism

end Telematics
