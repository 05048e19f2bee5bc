import Telematics.Proofs.CoveredTime
import Telematics.Proofs.DetectedSegments
import Telematics.Proofs.ReadPlans

/-!
# Windows that start after the asked range

A log answers only with windows of the asked range; other sources may answer with anything. What
becomes of windows that start after the end of the asked range is told here for trips from arrivals.
A run that starts there is trailing, so that it is taken to be in progress, and its duration is
negative. It is dropped with those that are too short, unless it starts more than 2147483648 seconds
after the end: then 32 bits do not hold the duration, the largest one is reported in its place, and
the segment is kept (`Segment.durationOf_cases`). All segments stay inside the asked range exactly
when no run starts so late, or the end of the asked range is long past
(`Arrivals.stays_inside_iff`).
-/

set_option autoImplicit false

namespace Telematics

namespace Segment

variable {asked r : Range} {lastOngoing : Bool} {runs : List Range} {s : Segment} {n : Int}

/-- A segment starts before the end of the asked range and reaches no further, and its duration is
that in whole seconds, as far as 32 bits hold them. -/
structure Inside (asked : Range) (s : Segment) : Prop where
  start_lt : s.start < asked.stop
  reach_le : s.reach asked.stop ≤ asked.stop
  durationSeconds_eq :
    s.durationSeconds = min (s.reach asked.stop - s.start).wholeSeconds longest

/-- An instant is so long after the end of the asked range that 32 bits do not hold the negative
number of whole seconds from it to that end. -/
def FarAfter (asked : Range) (t : Instant) : Prop := Span.seconds 2147483649 ≤ t - asked.stop

instance (asked : Range) (t : Instant) : Decidable (FarAfter asked t) :=
  inferInstanceAs (Decidable (_ ≤ _))

/-- A segment in progress that starts long after the end of the asked range, and is reported with
the largest duration. -/
structure Stray (asked : Range) (s : Segment) : Prop where
  ongoing : s.isOngoing = true
  start_far : FarAfter asked s.start
  durationSeconds_eq : s.durationSeconds = longest

theorem FarAfter.stop_lt {t : Instant} (h : FarAfter asked t) : asked.stop < t := by
  rw [FarAfter, Instant.le_sub_iff, Span.seconds] at h
  rw [Instant.lt_iff]
  omega

theorem Stray.not_inside (h : s.Stray asked) : ¬ s.Inside asked := fun hinside =>
  Int.lt_asymm hinside.start_lt h.start_far.stop_lt

/-- What is reported for a start that is not before the end: no positive duration, unless 32 bits do
not hold it. -/
theorem durationOf_cases {start : Instant} (h : asked.stop ≤ start) :
    FarAfter asked start ∧ durationOf (asked.stop - start) = longest ∨
      ¬ FarAfter asked start ∧ durationOf (asked.stop - start) ≤ 0 := by
  have hback : (asked.stop - start).wholeSeconds =
      -((start.nanos - asked.stop.nanos) / 1000000000) := by
    rw [Instant.le_iff] at h
    rw [Instant.sub_eq, ← Int.neg_sub, Span.wholeSeconds, Int.neg_tdiv,
      Int.tdiv_eq_ediv_of_nonneg (by omega)]
  rw [Instant.le_iff] at h
  rw [FarAfter, Instant.le_sub_iff, Span.seconds, durationOf, hback, longest]
  by_cases hfar : asked.stop.nanos + 2147483649 * 1000000000 ≤ start.nanos
  · refine Or.inl ⟨hfar, if_neg ?_⟩
    omega
  · refine Or.inr ⟨hfar, ?_⟩
    rw [if_pos ⟨by omega, by omega⟩]
    omega

/-! ## One run -/

/-- A finished segment lies inside the asked range. -/
theorem inside_of_capped (h : capped asked r = some s) : s.Inside asked := by
  obtain ⟨hlt, rfl⟩ := closed?_eq_some h
  refine ⟨Int.lt_of_lt_of_le hlt (Int.min_le_right _ _), Int.min_le_right _ _, ?_⟩
  exact durationOf_eq_min (Int.sub_nonneg_of_le (Int.le_of_lt hlt))

/-- So does one in progress, if it starts before the end. -/
theorem inside_ongoing {start : Instant} (before : Bool) (h : start < asked.stop) :
    (ongoing start asked.stop before).Inside asked :=
  ⟨h, Int.le_refl _, durationOf_eq_min (Int.sub_nonneg_of_le (Int.le_of_lt h))⟩

/-- One in progress that starts after the end is kept exactly if it starts long after it. -/
theorem le_duration_ongoing_iff (hpos : 0 < n) (hn : n ≤ longest) {start : Instant} (before : Bool)
    (h : asked.stop ≤ start) :
    Span.seconds n ≤ (ongoing start asked.stop before).duration ↔ FarAfter asked start := by
  rw [duration, Span.seconds_le_seconds_iff]
  show n ≤ durationOf (asked.stop - start) ↔ _
  rcases durationOf_cases h with ⟨hfar, hlongest⟩ | ⟨hnot, hle⟩
  · rw [hlongest]
    exact iff_of_true hn hfar
  · exact iff_of_false (Int.not_le.2 (Int.lt_of_le_of_lt hle hpos)) hnot

/-! ## Runs from their own starts -/

/-- A segment that is kept lies inside the asked range, or it is that of the last run and strays. -/
theorem inside_or_stray (hpos : 0 < n) (hn : n ≤ longest)
    (hs : s ∈ atLeast (Span.seconds n) (keepStarts asked lastOngoing runs)) :
    s.Inside asked ∨ s.Stray asked ∧ lastOngoing = true ∧
      ∃ r, runs.getLast? = some r ∧ s.start = r.start := by
  obtain ⟨hmem, hlong⟩ := List.mem_filter.1 hs
  obtain ⟨r, -, hcapped | ⟨hongoing, hlast, hbuilt⟩⟩ := exists_run_of_mem_keepStarts hmem
  · exact Or.inl (inside_of_capped hcapped)
  · obtain rfl := Option.some.inj hbuilt
    by_cases hlt : r.start < asked.stop
    · exact Or.inl (inside_ongoing _ hlt)
    · have hle := Instant.not_lt.1 hlt
      have hfar := (le_duration_ongoing_iff hpos hn _ hle).1 (of_decide_eq_true hlong)
      refine Or.inr ⟨⟨rfl, hfar, ?_⟩, hongoing, r, hlast, rfl⟩
      exact ((durationOf_cases hle).resolve_right fun h => h.1 hfar).2

/-- All segments that are kept lie inside the asked range unless the last run goes on and starts
long after its end. -/
theorem forall_inside_iff (hpos : 0 < n) (hn : n ≤ longest) :
    (∀ s ∈ atLeast (Span.seconds n) (keepStarts asked lastOngoing runs), s.Inside asked) ↔
      ¬ (lastOngoing = true ∧ ∃ r, runs.getLast? = some r ∧ FarAfter asked r.start) := by
  constructor
  · rintro hinside ⟨rfl, r, hlast, hfar⟩
    -- the segment of such a run is kept
    have hmem : ongoing r.start asked.stop (decide (r.start < asked.start)) ∈
        atLeast (Span.seconds n) (keepStarts asked true runs) := by
      refine List.mem_filter.2 ⟨mem_ofRanges_iff.2 (Or.inr ⟨r, hlast, rfl⟩), decide_eq_true ?_⟩
      exact (le_duration_ongoing_iff hpos hn _ (Int.le_of_lt hfar.stop_lt)).2 hfar
    exact Int.lt_asymm (hinside _ hmem).start_lt hfar.stop_lt
  · intro hnone s hs
    rcases inside_or_stray hpos hn hs with hinside | ⟨hstray, hongoing, r, hlast, hstart⟩
    · exact hinside
    · exact absurd ⟨hongoing, r, hlast, hstart ▸ hstray.start_far⟩ hnone

end Segment

/-! ## Trips from the windows of any source -/

/-- In a list in order no range starts after the last one. -/
theorem Range.start_le_of_getLast? {runs : List Range} {m last : Range}
    (horder : runs.Pairwise fun a b => a.stop ≤ b.start) (hlast : runs.getLast? = some last)
    (hm : m ∈ runs) (hforward : m.start ≤ m.stop) : m.start ≤ last.start := by
  obtain ⟨init, rfl⟩ := List.getLast?_eq_some_iff.1 hlast
  rcases List.mem_append.1 hm with hinit | hsame
  · exact Instant.le_trans hforward
      ((List.pairwise_append.1 horder).2.2 m hinit last List.mem_cons_self)
  · rw [List.mem_singleton.1 hsame]
    exact Int.le_refl _

namespace Arrivals

open Segment (FarAfter)

variable {r : Request} {now : Instant} {active : List Range} {s : Segment}

theorem defaultMinSegment_allowed : Tunable.minSegment.allows defaultMinSegment = true := by decide

/-- One of the runs that windows grow together to is long enough, and starts long after the end of
the asked range. -/
def FarRun (r : Request) (active : List Range) : Prop :=
  ∃ m ∈ Range.merge (gap r.tuning) active,
    minDuration r.tuning ≤ m.length ∧ FarAfter r.asked m.start

/-- The runs that are relevant. -/
def relevantRuns (r : Request) (active : List Range) : List Range :=
  Activity.relevant r.asked (minDuration r.tuning) (Range.merge (gap r.tuning) active)

/-- There is such a run exactly if the last relevant one starts so late, and then it is trailing
unless the end of the asked range is long past. -/
theorem lastTrails_and_far_iff (hvalid : r.tuning.firstOutside = none)
    (hasked : r.asked.start < r.asked.stop) :
    (Activity.lastTrails r.asked now (gap r.tuning) (relevantRuns r active) = true ∧
      ∃ m, (relevantRuns r active).getLast? = some m ∧ FarAfter r.asked m.start) ↔
      now - r.asked.stop ≤ gap r.tuning ∧ FarRun r active := by
  have hpos : 0 < minDuration r.tuning := Tuning.minSegment_pos hvalid (by decide)
  have hforward : ∀ m : Range, minDuration r.tuning ≤ m.length → m.start ≤ m.stop :=
    fun m hlong => Int.le_of_sub_nonneg (Int.le_trans (Int.le_of_lt hpos) hlong)
  rw [Activity.lastTrails_iff]
  constructor
  · rintro ⟨⟨-, -, -, hrecent⟩, m, hlast, hfar⟩
    obtain ⟨hmem, hlong, -⟩ := Activity.mem_relevant_iff.1 (List.mem_of_getLast? hlast)
    exact ⟨hrecent, m, hmem, hlong, hfar⟩
  · rintro ⟨hrecent, m, hmem, hlong, hfar⟩
    have hm : m ∈ relevantRuns r active := by
      refine Activity.mem_relevant_iff.2 ⟨hmem, hlong, ?_⟩
      exact Int.lt_of_lt_of_le (Int.lt_trans hasked hfar.stop_lt) (hforward m hlong)
    have horder : (relevantRuns r active).Pairwise fun a b => a.stop ≤ b.start :=
      Activity.pairwise_relevant (Activity.pairwise_merge _ _)
    cases hlast : (relevantRuns r active).getLast? with
    | none =>
        rw [List.getLast?_eq_none_iff.1 hlast] at hm
        exact absurd hm List.not_mem_nil
    | some last =>
        -- the last run starts no earlier, and so it stops after the end as well
        have hstart := Range.start_le_of_getLast? horder hlast hm (hforward m hlong)
        have hfar' : FarAfter r.asked last.start :=
          Int.le_trans hfar (Int.sub_le_sub_right hstart _)
        have hstop : r.asked.stop ≤ last.stop := Instant.le_trans (Int.le_of_lt hfar'.stop_lt)
          (hforward last (Activity.mem_relevant_iff.1 (List.mem_of_getLast? hlast)).2.1)
        have htrailing := Int.le_trans (Int.sub_nonpos_of_le hstop) (gap_nonneg hvalid)
        exact ⟨⟨last, rfl, htrailing, hrecent⟩, last, rfl, hfar'⟩

/-- The segments of windows stay inside the asked range, but for those of windows that start long
after its end. -/
theorem inside_or_stray_of_mem (hvalid : r.tuning.firstOutside = none)
    (hs : s ∈ segmentsOf r now active) :
    s.Inside r.asked ∨ s.Stray r.asked ∧ ∃ a ∈ active, a.start = s.start := by
  obtain ⟨hpos, hlongest⟩ := Tuning.minSegment_reportable hvalid defaultMinSegment_allowed
  rcases Segment.inside_or_stray hpos hlongest hs with
    hinside | ⟨hstray, -, m, hlast, hstart⟩
  · exact Or.inl hinside
  · have hm := (Activity.mem_relevant_iff.1 (List.mem_of_getLast? hlast)).1
    obtain ⟨a, ha, heq⟩ := Range.forall_mem_mergeWith
      (P := fun m => ∃ a ∈ active, a.start = m.start) (fun _ _ ha _ => ha)
      (fun a ha => ⟨a, ha, rfl⟩) m hm
    exact Or.inr ⟨hstray, a, ha, heq.trans hstart.symm⟩

theorem forall_inside_segmentsOf_iff (hvalid : r.tuning.firstOutside = none)
    (hasked : r.asked.start < r.asked.stop) :
    (∀ s ∈ segmentsOf r now active, s.Inside r.asked) ↔
      ¬ (now - r.asked.stop ≤ gap r.tuning ∧ FarRun r active) := by
  obtain ⟨hpos, hlongest⟩ := Tuning.minSegment_reportable hvalid defaultMinSegment_allowed
  rw [← lastTrails_and_far_iff hvalid hasked]
  exact Segment.forall_inside_iff hpos hlongest

/-- Whatever windows a source answers with, trips stay inside the asked range exactly when none of
the runs of windows that are long enough starts long after its end, or that end is long past; a trip
that does not stay inside starts with a window that starts so late. -/
theorem stays_inside_iff (hvalid : r.tuning.firstOutside = none)
    (hasked : r.asked.start < r.asked.stop) {source : Source} {found : List Window}
    (hfound : source.reply (.windows r.token (frequencyQuery r)) = .answer found) (now : Instant) :
    ∃ segments, (Mechanism.frequency.detect source now r).outcome = .answer segments ∧
      (∀ s ∈ segments, s.Inside r.asked ∨ s.Stray r.asked ∧ ∃ w ∈ found, w.start = s.start) ∧
      ((∀ s ∈ segments, s.Inside r.asked) ↔
        ¬ (now - r.asked.stop ≤ gap r.tuning ∧ FarRun r (found.map Window.range))) := by
  refine ⟨segmentsOf r now (found.map Window.range), ?_, ?_, ?_⟩
  · rw [Mechanism.detect, Mechanism.plan, frequencyPlan, Plan.run_of_answer hfound]
    rfl
  · intro s hs
    rcases inside_or_stray_of_mem hvalid hs with hinside | ⟨hstray, a, ha, hstart⟩
    · exact Or.inl hinside
    · obtain ⟨w, hw, rfl⟩ := List.mem_map.1 ha
      exact Or.inr ⟨hstray, w, hw, hstart⟩
  · exact forall_inside_segmentsOf_iff hvalid hasked

/-- Ten minutes, with the default tunables. -/
def tenMinutes : Request := ⟨42, ⟨.ofSeconds 0, .ofSeconds 600⟩, .default⟩

/-- Four minutes in a row, many years after these. -/
def farMinutes : List Window :=
  [⟨.ofSeconds 3000000000, .ofSeconds 3000000060, 12, 1⟩,
    ⟨.ofSeconds 3000000060, .ofSeconds 3000000120, 12, 1⟩,
    ⟨.ofSeconds 3000000120, .ofSeconds 3000000180, 12, 1⟩,
    ⟨.ofSeconds 3000000180, .ofSeconds 3000000240, 12, 1⟩]

/-- The trip that is found in them. -/
def farTrip : Segment := ⟨.ofSeconds 3000000000, none, 2147483647, true, false⟩

theorem outcome_farMinutes :
    (Mechanism.frequency.detect (.steady [] farMinutes []) (.ofSeconds 600) tenMinutes).outcome =
      .answer [farTrip] := by
  have hmerge : Range.merge (gap tenMinutes.tuning) (farMinutes.map Window.range) =
      [⟨.ofSeconds 3000000000, .ofSeconds 3000000240⟩] := by
    rw [Range.merge, Range.mergeWith, Range.mergeSort_eq_self (by decide)]
    decide
  show Outcome.answer (segmentsOf tenMinutes (.ofSeconds 600) (farMinutes.map Window.range)) = _
  rw [segmentsOf, Activity.ofStretches, hmerge]
  exact congrArg Outcome.answer (by decide)

theorem stray_farTrip : farTrip.Stray tenMinutes.asked := ⟨rfl, by decide, rfl⟩

theorem stays_inside_farMinutes :
    tenMinutes.tuning.firstOutside = none ∧ tenMinutes.asked.start < tenMinutes.asked.stop ∧
      (Source.steady [] farMinutes []).reply
          (.windows tenMinutes.token (frequencyQuery tenMinutes)) = .answer farMinutes ∧
      (∀ s ∈ [farTrip], s.Inside tenMinutes.asked ∨
        s.Stray tenMinutes.asked ∧ ∃ w ∈ farMinutes, w.start = s.start) ∧
      ((∀ s ∈ [farTrip], s.Inside tenMinutes.asked) ↔
        ¬ ((.ofSeconds 600 : Instant) - tenMinutes.asked.stop ≤ gap tenMinutes.tuning ∧
          FarRun tenMinutes (farMinutes.map Window.range))) := by
  have hvalid : tenMinutes.tuning.firstOutside = none := rfl
  have hasked : tenMinutes.asked.start < tenMinutes.asked.stop := by decide
  have hfound : (Source.steady [] farMinutes []).reply
      (.windows tenMinutes.token (frequencyQuery tenMinutes)) = .answer farMinutes := rfl
  obtain ⟨segments, houtcome, hsegments, hiff⟩ :=
    stays_inside_iff hvalid hasked hfound (.ofSeconds 600)
  obtain rfl := Outcome.answer.inj (houtcome.symm.trans outcome_farMinutes)
  exact ⟨hvalid, hasked, hfound, hsegments, hiff⟩

/-- Windows in order, all of them in the calendar, are answered by a trip that starts many years
after the asked range and claims to have lasted as long as can be reported. -/
theorem not_inside_farMinutes :
    tenMinutes.tuning.firstOutside = none ∧
      (farMinutes.Pairwise fun v w => v.stop ≤ w.start) ∧
      (∀ w ∈ farMinutes, w.start < w.stop ∧ w.start.InCalendar ∧ w.stop.InCalendar) ∧
      (Mechanism.frequency.detect (.steady [] farMinutes []) tenMinutes.asked.stop
        tenMinutes).outcome = .answer [farTrip] ∧
      ¬ farTrip.Inside tenMinutes.asked :=
  ⟨rfl, by decide, by decide, outcome_farMinutes, stray_farTrip.not_inside⟩

end Arrivals

end Telematics
