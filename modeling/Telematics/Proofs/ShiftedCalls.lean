import Telematics.Proofs.CoveredTime
import Telematics.Proofs.GatedCalls
import Telematics.Proofs.ShiftedDetection

/-!
# Calls do not depend on the epoch

The service called with everything moved by whole minutes: the rows of the log, the asked range and
the present. It makes the moved reads, reports the same, and its outcome is the same but for the
starts and stops of the segments, which have moved along; durations and flags stay
(`Service.getSegments_shift`). That holds for every mechanism and every accepted request, as long as
the moved range has its margins in the calendar, and wherever the epoch lies.

`Plan.Moves` compares the two plans of a mechanism: they ask for the same reads but for the move,
and go on alike when the answers are. Runs of such plans against a log and the moved log are
compared once, by induction on the plan.
-/

set_option autoImplicit false

namespace Telematics

variable {d : Span} {k : Int}

/-- The outcome with another answer in the place of its answer. -/
def Outcome.map {ε α β : Type} (f : α → β) : Outcome ε α → Outcome ε β
  | answer a => answer (f a)
  | failure e => failure e
  | never => never
  | stuck => stuck

/-! ## Plans -/

namespace Plan

/-- The second plan makes the moved reads of the first one and, given the moved answers, comes to
the moved segments. -/
inductive Moves (d : Span) : Plan (List Segment) → Plan (List Segment) → Prop
  | done (found : List Segment) : Moves d (.done found) (.done (found.map (Segment.shift d)))
  | ask {read : Read} {next : read.Answer → Plan (List Segment)}
      {next' : (read.shift d).Answer → Plan (List Segment)} : read.Movable d →
      (∀ a, Moves d (next a) (next' (read.shiftAnswer d a))) →
      Moves d (.ask read next) (.ask (read.shift d) next')
  | stuck : Moves d .stuck .stuck

namespace Moves

theorem done_of_eq {found found' : List Segment} (h : found' = found.map (Segment.shift d)) :
    Moves d (.done found) (.done found') := h ▸ .done found

variable {token : TokenId} {signal : String} {within within' : Range}

theorem levels {next next' : List (Sample Float) → Plan (List Segment)}
    (hwithin : within' = within.shift d)
    (h : ∀ samples, Moves d (next samples) (next' (samples.map (Sample.shift d)))) :
    Moves d (.ask (.levels token signal within) next)
      (.ask (.levels token signal within') next') := by
  subst hwithin
  exact .ask trivial h

theorem changes {next next' : List StateChange → Plan (List Segment)}
    (hwithin : within' = within.shift d)
    (h : ∀ found, Moves d (next found) (next' (found.map (StateChange.shift d)))) :
    Moves d (.ask (.changes token signal within) next)
      (.ask (.changes token signal within') next') := by
  subst hwithin
  exact .ask trivial h

theorem windows {query query' : WindowQuery} {next next' : List Window → Plan (List Segment)}
    (hquery : query' = query.shift d) (hmovable : (Read.windows token query).Movable d)
    (h : ∀ found, Moves d (next found) (next' (found.map (Window.shift d)))) :
    Moves d (.ask (.windows token query) next) (.ask (.windows token query') next') := by
  subst hquery
  exact .ask hmovable h

/-- The second plan, run against the moved log, makes the moved reads and has the moved outcome. -/
theorem run {plan plan' : Plan (List Segment)} (h : plan.Moves (Span.minutes k) plan') (log : Log) :
    (plan'.run (log.shift (Span.minutes k)).source).reads =
        (plan.run log.source).reads.map (Read.shift (Span.minutes k)) ∧
      (plan'.run (log.shift (Span.minutes k)).source).outcome =
        (plan.run log.source).outcome.map (List.map (Segment.shift (Span.minutes k))) := by
  induction h with
  | done found => exact ⟨rfl, rfl⟩
  | stuck => exact ⟨rfl, rfl⟩
  | ask hmovable _ ih =>
      obtain ⟨a, hreply, hmoved⟩ := log.exists_answer_shift hmovable
      rw [run_of_answer hreply, run_of_answer hmoved]
      obtain ⟨hreads, houtcome⟩ := ih a
      exact ⟨congrArg _ hreads, houtcome⟩

end Moves

end Plan

/-! ## The plans of the mechanisms -/

/-- A read that looks back from the asked range moves along. -/
theorem Range.lookback_shift (asked : Range) (e : Span) :
    (⟨(asked.shift d).start - e, (asked.shift d).stop⟩ : Range) =
      (⟨asked.start - e, asked.stop⟩ : Range).shift d := by
  rw [start_shift, stop_shift, Instant.add_sub_comm]
  rfl

/-- So does the range of a question for minutes, from that minute on in which the asked range
begins. -/
theorem Request.StaysRoomy.minutes_shift {now : Instant} {r : Request}
    (hr : r.StaysRoomy (Span.minutes k) now) :
    (⟨(r.asked.shift (Span.minutes k)).start.alignDown Arrivals.windowSeconds,
        (r.asked.shift (Span.minutes k)).stop⟩ : Range) =
      (⟨r.asked.start.alignDown Arrivals.windowSeconds, r.asked.stop⟩ : Range).shift
        (Span.minutes k) :=
  congrArg (Range.mk · (r.asked.stop + Span.minutes k)) (Instant.alignDown_add_minutes hr.start)

namespace Mechanism

variable {now : Instant} {r : Request}

theorem moves_frequency (hr : r.StaysRoomy (Span.minutes k) now) :
    (Arrivals.frequencyPlan r now).Moves (Span.minutes k)
      (Arrivals.frequencyPlan (r.shift (Span.minutes k)) (now + Span.minutes k)) := by
  refine .windows ?_ ⟨rfl, hr.start.alignDown, hr.stop⟩ fun found => .done_of_eq ?_
  · rw [Arrivals.frequencyQuery, Request.shift, hr.minutes_shift]
    rfl
  · rw [Arrivals.map_range_shift, Arrivals.segmentsOf_shift]

theorem moves_staticRpm (hr : r.StaysRoomy (Span.minutes k) now) :
    (Idling.windowPlan r now).Moves (Span.minutes k)
      (Idling.windowPlan (r.shift (Span.minutes k)) (now + Span.minutes k)) := by
  refine .windows ?_ ⟨rfl, hr.start.alignDown, hr.stop⟩ fun found =>
    .done_of_eq (Idling.windowSegments_shift r now found)
  rw [Idling.windowQuery, Request.shift, hr.minutes_shift]
  rfl

theorem moves_changePoint (hr : r.StaysRoomy (Span.minutes k) now) :
    (Arrivals.changePointPlan r now).Moves (Span.minutes k)
      (Arrivals.changePointPlan (r.shift (Span.minutes k)) (now + Span.minutes k)) := by
  refine .windows ?_ ⟨rfl, Arrivals.stays_lookbackStart hr, hr.stop⟩ fun found => .done_of_eq ?_
  · rw [Arrivals.changePointQuery, Arrivals.lookbackStart_shift hr]
    rfl
  · rw [Arrivals.slots_shift hr, Arrivals.activeSlots_shift, Arrivals.segmentsOf_shift]

theorem moves_refuel (hr : r.StaysRoomy (Span.minutes k) now) :
    (Refuel.plan r).Moves (Span.minutes k) (Refuel.plan (r.shift (Span.minutes k))) := by
  refine .levels ?_ fun samples => .done_of_eq (Refuel.segments_shift hr _ _ samples)
  simp only [Request.shift, Range.start_shift, Range.stop_shift, Instant.add_sub_comm,
    Instant.add_add_comm]
  rfl

theorem moves_recharge (r : Request) :
    (Recharge.plan r).Moves d (Recharge.plan (r.shift d)) := by
  refine .levels (Range.lookback_shift r.asked Recharge.lookback) fun charge => ?_
  -- whether the odometer is read depends on the number of samples, which stays
  rw [Recharge.planWith, Recharge.planWith, List.length_map]
  split
  · exact .done []
  · refine .levels (Range.lookback_shift r.asked Recharge.lookback) fun odometer => ?_
    have htuning : (r.shift d).tuning = r.tuning := rfl
    simp only [htuning, Recharge.candidates_shift]
    cases Recharge.candidates charge odometer (r.tuning.minIncrease Recharge.defaultIncrease)
        (r.tuning.minSegment Recharge.defaultMinSegment) with
    | none => exact .stuck
    | some found => exact .done_of_eq (Recharge.segmentsOf_shift odometer _ r.asked found)

/-- The plan of a mechanism moves along with the range and the present. -/
theorem moves_plan (m : Mechanism) (hr : r.StaysRoomy (Span.minutes k) now) :
    (m.plan now r).Moves (Span.minutes k)
      (m.plan (now + Span.minutes k) (r.shift (Span.minutes k))) := by
  cases m with
  | ignition =>
      exact .changes (Range.lookback_shift r.asked Ignition.lookback) fun found =>
        .done_of_eq (Ignition.segments_shift r.asked r.tuning found)
  | frequency => exact moves_frequency hr
  | changePoint => exact moves_changePoint hr
  | idling =>
      exact .levels (Range.lookback_shift r.asked (Idling.gap r.tuning)) fun samples =>
        .done_of_eq (Idling.segments_shift r now samples)
  | staticRpm => exact moves_staticRpm hr
  | refuel => exact moves_refuel hr
  | recharge => exact moves_recharge r

end Mechanism

/-! ## Calls -/

/-- An accepted request is accepted once it has moved, if its margins are in the calendar then. -/
theorem Request.rejection_shift {now : Instant} {r : Request} (h : r.rejection now = none)
    (hbefore : (r.asked.start + d - margin).InCalendar)
    (hafter : (r.asked.stop + d + margin).InCalendar) :
    (r.shift d).rejection (now + d) = none := by
  have hroomy := roomy_of_rejection_eq_none h
  have hascending : ¬ r.asked.stop ≤ r.asked.start := Instant.not_le.2 hroomy.ascending
  have hmargins : ¬ (¬ (r.asked.start - margin).InCalendar ∨
      ¬ (r.asked.stop + margin).InCalendar) :=
    not_or.2 ⟨not_not.2 hroomy.before, not_not.2 hroomy.after⟩
  have hmargins' : ¬ (¬ (r.asked.start + d - margin).InCalendar ∨
      ¬ (r.asked.stop + d + margin).InCalendar) :=
    not_or.2 ⟨not_not.2 hbefore, not_not.2 hafter⟩
  -- what is left compares instants and looks at the tunables
  rw [rejection, if_neg hascending, if_neg hmargins] at h
  simp only [rejection, shift, Range.start_shift, Range.stop_shift, Range.length_shift,
    Instant.add_le_add_iff, Instant.add_lt_add_iff]
  rw [if_neg hascending, if_neg hmargins']
  exact h

namespace Service

/-- A run that ends alike with moved segments makes a call that reports the same. -/
theorem ofRun_shift (m : Mechanism) {run run' : Run (List Segment)}
    (houtcome : run'.outcome = run.outcome.map (List.map (Segment.shift d))) :
    (Call.ofRun m run').reports = (Call.ofRun m run).reports ∧
      (Call.ofRun m run').outcome =
        (Call.ofRun m run).outcome.map (List.map (Segment.shift d)) := by
  rw [Call.ofRun, Call.ofRun, houtcome]
  cases run.outcome with
  | answer found => simp [Outcome.map]
  | failure f => exact ⟨rfl, rfl⟩
  | never => exact ⟨rfl, rfl⟩
  | stuck => exact ⟨rfl, rfl⟩

/-- With the log, the asked range and the present moved by whole minutes, an accepted request is
accepted still and every mechanism finds the moved segments: the call makes the moved reads, reports
the same and ends alike. -/
theorem getSegments_shift (log : Log) (m : Mechanism) {now : Instant} {r : Request}
    (hvalid : r.rejection now = none)
    (hbefore : (r.asked.start + Span.minutes k - Request.margin).InCalendar)
    (hafter : (r.asked.stop + Span.minutes k + Request.margin).InCalendar) :
    let call := getSegments ⟨log.source, now⟩ m r
    let moved := getSegments ⟨(log.shift (Span.minutes k)).source, now + Span.minutes k⟩ m
      (r.shift (Span.minutes k))
    (r.shift (Span.minutes k)).rejection (now + Span.minutes k) = none ∧
      moved.reads = call.reads.map (Read.shift (Span.minutes k)) ∧
      moved.reports = call.reports ∧
      moved.outcome = call.outcome.map (List.map (Segment.shift (Span.minutes k))) := by
  have hvalid' := Request.rejection_shift hvalid hbefore hafter
  have hr : r.StaysRoomy (Span.minutes k) now :=
    ⟨Request.roomy_of_rejection_eq_none hvalid, Request.roomy_of_rejection_eq_none hvalid'⟩
  obtain ⟨hreads, houtcome⟩ := (m.moves_plan hr).run log
  obtain ⟨hreports, hended⟩ := ofRun_shift m houtcome
  simp only [getSegments, hvalid, hvalid']
  refine ⟨trivial, ?_, hreports, hended⟩
  rw [Call.reads_ofRun, Call.reads_ofRun]
  exact hreads

/-- Four minutes with a row every five seconds, none of them at a whole second. -/
def unevenDriveLog : Log :=
  ⟨(List.range 48).map fun (i : Nat) => ⟨42, "speed", ⟨5000000000 * (i : Int) + 1⟩, 30.0⟩⟩

theorem outcome_unevenDriveLog :
    (getSegments ⟨unevenDriveLog.source, .ofSeconds 600⟩ .frequency
      Arrivals.firstMinutes).outcome = .answer [Arrivals.drive] := by
  have hsorted : unevenDriveLog.bucketed 42 (Arrivals.frequencyQuery Arrivals.firstMinutes) =
      unevenDriveLog.records.filter
        (Log.counts 42 (Arrivals.frequencyQuery Arrivals.firstMinutes)) :=
    Log.bucketed_of_pairwise (by decide +kernel) 42 (by decide)
  have hwindows : (unevenDriveLog.windows 42
        (Arrivals.frequencyQuery Arrivals.firstMinutes)).map Window.range =
      Arrivals.driveMinutes := by
    show ((Log.gather _ (unevenDriveLog.bucketed _ _)).filterMap _).map _ = _
    rw [hsorted]
    decide +kernel
  have hsegments : Arrivals.segmentsOf Arrivals.firstMinutes (.ofSeconds 600)
      ((unevenDriveLog.windows 42 (Arrivals.frequencyQuery Arrivals.firstMinutes)).map
        Window.range) = [Arrivals.drive] := by
    rw [hwindows, Arrivals.segmentsOf, Activity.ofStretches, Arrivals.merge_driveMinutes]
    decide +kernel
  exact congrArg Outcome.answer hsegments

/-- Two minutes earlier the same trip starts before the epoch and goes on after it. -/
theorem getSegments_shift_driveLog :
    Arrivals.firstMinutes.rejection (.ofSeconds 600) = none ∧
      (Instant.ofSeconds 0 + Span.minutes (-2) - Request.margin).InCalendar ∧
      (Instant.ofSeconds 600 + Span.minutes (-2) + Request.margin).InCalendar ∧
      (getSegments ⟨(unevenDriveLog.shift (Span.minutes (-2))).source,
          Instant.ofSeconds 600 + Span.minutes (-2)⟩ .frequency
          (Arrivals.firstMinutes.shift (Span.minutes (-2)))).outcome =
        .answer [⟨.ofSeconds (-120), none, 600, true, false⟩] := by
  have hvalid : Arrivals.firstMinutes.rejection (.ofSeconds 600) = none := by decide
  have hbefore : (Instant.ofSeconds 0 + Span.minutes (-2) - Request.margin).InCalendar := by decide
  have hafter : (Instant.ofSeconds 600 + Span.minutes (-2) + Request.margin).InCalendar := by
    decide
  obtain ⟨-, -, -, houtcome⟩ :=
    getSegments_shift unevenDriveLog .frequency hvalid hbefore hafter
  refine ⟨hvalid, hbefore, hafter, houtcome.trans ?_⟩
  rw [outcome_unevenDriveLog]
  rfl

end Service

end Telematics
