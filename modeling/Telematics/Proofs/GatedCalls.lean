import Telematics.Proofs.ClimbLoops
import Telematics.Proofs.DetectedSegments
import Telematics.Proofs.ParkedRecharge
import Telematics.Proofs.ReadPlans
import Telematics.Service

/-!
# Gated calls and their reports

A call is gated before anything is read: an unknown name or a rejected request leaves no trace.
Every other call makes the reads of its mechanism in order and stops at the first one that fails,
all of its reads ask for the vehicle of the call and stay within 25 hours of the asked range, and
when it ends it is reported once. `Service.Gated` says all this of one call, and
`Service.gated_and_reported` that every call is so and that an observer of many calls hears exactly
the reports due for them, in the order of the calls.

Not every call ends on a source that replies to every read. Recharges are looked for by loops that
go on for ever where smoothed levels cannot be compared (`Loops.run_exact`), and a call that is
caught in them is never reported. `Recharge.Endless` says on which replies this is so. Levels that
are finite numbers are enough for it: their running sums may overflow
(`Service.not_reportsOnce_overflowLog`).

A source may reply to a later call otherwise than to an earlier one, and the present moves on: each
call of a sequence is made on the service as it is by then. No call makes a read twice, so that
within one call a reply to each read is all there is to say of a source.
-/

set_option autoImplicit false

namespace Telematics

open FloatOrder (IsNumber)

/-! ## Bounds of reads -/

/-- A read looks from before the asked range to after it, and by no more than the margin. -/
structure Request.Reaches (r : Request) (read : Read) : Prop where
  start_le : read.span.start ≤ r.asked.start
  le_stop : r.asked.stop ≤ read.span.stop
  margin_le : r.asked.start - margin ≤ read.span.start
  le_margin : read.span.stop ≤ r.asked.stop + margin

namespace Request.Reaches

variable {r : Request} {read : Read}

/-- A read that looks back by some seconds, and no further than the asked range. -/
theorem of_lookback {seconds : Int} (h0 : 0 ≤ seconds) (h : seconds ≤ 90000)
    (hspan : read.span = ⟨r.asked.start - Span.seconds seconds, r.asked.stop⟩) :
    r.Reaches read := by
  rw [Span.seconds] at hspan
  constructor <;>
    simp only [hspan, Instant.le_iff, Instant.nanos_sub, Instant.nanos_add, margin, Span.hours,
      Span.seconds] <;> omega

/-- The same, from a whole minute on. -/
theorem of_alignDown {seconds : Int} (h0 : 0 ≤ seconds) (h : seconds ≤ 89940)
    (hspan : read.span =
      ⟨(r.asked.start - Span.seconds seconds).alignDown Arrivals.windowSeconds, r.asked.stop⟩) :
    r.Reaches read := by
  have hpos : 0 < Arrivals.windowSeconds := by decide
  have hlow := (r.asked.start - Span.seconds seconds).lt_alignDown_add hpos
  have hhigh := (r.asked.start - Span.seconds seconds).alignDown_le hpos
  simp only [Instant.le_iff, Instant.nanos_sub, Span.seconds, Arrivals.windowSeconds] at hlow hhigh
  constructor <;>
    simp only [hspan, Instant.le_iff, Instant.nanos_sub, Instant.nanos_add, margin, Span.hours,
      Span.seconds, Arrivals.windowSeconds] <;> omega

end Request.Reaches

/-- The reads of a mechanism for an accepted request reach no further than the margin. -/
theorem Mechanism.Makes.reaches {m : Mechanism} {now : Instant} {r : Request} {read : Read}
    (h : m.Makes r read) (hr : r.Accepted now) : r.Reaches read := by
  have hwhole : r.asked.start = r.asked.start - Span.seconds 0 := by
    apply Instant.eq_of_nanos_eq
    simp [Span.seconds]
  rcases h with rfl | ⟨-, rfl⟩
  · cases m with
    | ignition => exact .of_lookback (by decide : (0 : Int) ≤ 86400) (by decide) rfl
    | frequency =>
        refine .of_alignDown (Int.le_refl 0) (by decide) ?_
        rw [← hwhole]
        rfl
    | changePoint =>
        obtain ⟨hlow, hhigh⟩ := Arrivals.gapSeconds_bounds hr.allowed
        exact .of_alignDown (by omega) (by omega) rfl
    | idling =>
        have hdefault : Tunable.maxGap.allows Idling.defaultGap = true := by decide
        obtain ⟨hlow, hhigh⟩ := Tuning.maxGap_bounds hr.allowed hdefault
        exact .of_lookback (by omega) (by omega) rfl
    | staticRpm =>
        refine .of_alignDown (Int.le_refl 0) (by decide) ?_
        rw [← hwhole]
        rfl
    | refuel =>
        constructor <;>
          simp only [firstRead, Refuel.read, Read.span, Instant.le_iff, Instant.nanos_sub,
            Instant.nanos_add, Request.margin, Refuel.readMargin, Span.hours, Span.minutes,
            Span.seconds] <;> omega
    | recharge => exact .of_lookback (by decide : (0 : Int) ≤ 7200) (by decide) rfl
  · exact .of_lookback (by decide : (0 : Int) ≤ 7200) (by decide) rfl

/-! ## Reads that are made -/

/-- The read of the state of charge is answered with enough samples to read the odometer. -/
def Recharge.Enough (source : Source) (r : Request) : Prop :=
  ∃ charge : List (Sample Float), source.reply (chargeRead r) = .answer charge ∧ 13 ≤ charge.length

/-- Both reads are answered, the first with enough samples, but some value of the smoothed state of
charge is no number, so that values cannot be compared. -/
def Recharge.Endless (source : Source) (r : Request) : Prop :=
  ∃ charge odometer : List (Sample Float),
    source.reply (chargeRead r) = .answer charge ∧ 13 ≤ charge.length ∧
      source.reply (odometerRead r) = .answer odometer ∧
        ∃ v ∈ Series.rollingMean smoothing (charge.map Sample.value), ¬ IsNumber v

/-- Two levels or more have no candidates exactly if a smoothed one is no number. -/
theorem Recharge.candidates_eq_none_iff {charge : List (Sample Float)} (hlength : 2 ≤ charge.length)
    (odometer : List (Sample Float)) (leastIncrease : Float) (minDuration : Span) :
    candidates charge odometer leastIncrease minDuration = none ↔
      ∃ v ∈ Series.rollingMean smoothing (charge.map Sample.value), ¬ IsNumber v := by
  have hneighbours : ¬ (Series.rollingMean smoothing (charge.map Sample.value)).length < 2 := by
    rw [Series.length_rollingMean, List.length_map]
    exact Nat.not_lt.2 hlength
  rw [← Option.not_isSome_iff_eq_none, isSome_candidates_iff, neighboursCompare_iff_numbers,
    or_iff_right hneighbours]
  simp only [not_forall, exists_prop]

namespace Mechanism

variable {m : Mechanism} {source : Source} {now : Instant} {r : Request}

/-- A mechanism other than that of recharges makes one read. -/
theorem reads_detect (h : m ≠ .recharge) :
    (m.detect source now r).reads = [m.firstRead r] := by
  obtain ⟨found, hplan⟩ := exists_plan_eq h now r
  rw [detect, hplan, Plan.run]
  split <;> rfl

/-- A detection of recharges goes on from the answer to its first read. -/
theorem detect_recharge_eq {charge : List (Sample Float)}
    (h : source.reply (Recharge.chargeRead r) = .answer charge) :
    recharge.detect source now r =
      ⟨Recharge.chargeRead r :: ((Recharge.planWith r charge).run source).reads,
        ((Recharge.planWith r charge).run source).outcome⟩ :=
  Plan.run_of_answer h

/-- Recharges are looked for with a second read if the first one was answered with enough
samples. -/
theorem reads_detect_recharge_of_enough (h : Recharge.Enough source r) :
    (recharge.detect source now r).reads = [Recharge.chargeRead r, Recharge.odometerRead r] := by
  obtain ⟨charge, hcharge, henough⟩ := h
  rw [detect_recharge_eq hcharge, Recharge.planWith_of_le r henough]
  cases hodometer : source.reply (Recharge.odometerRead r) with
  | answer odometer =>
      rw [Plan.run_of_answer hodometer]
      dsimp only
      cases Recharge.candidates charge odometer (r.tuning.minIncrease Recharge.defaultIncrease)
          (r.tuning.minSegment Recharge.defaultMinSegment) with
      | none => rfl
      | some found => rfl
  | failure e => rw [Plan.run_of_failure hodometer]
  | never => rw [Plan.run_of_never hodometer]

/-- Otherwise there is no second read. -/
theorem reads_detect_recharge_of_few (h : ¬ Recharge.Enough source r) :
    (recharge.detect source now r).reads = [Recharge.chargeRead r] := by
  cases hcharge : source.reply (Recharge.chargeRead r) with
  | answer charge =>
      have hfew : List.length charge < Recharge.leastSamples :=
        Nat.lt_of_not_le fun henough => h ⟨charge, hcharge, henough⟩
      rw [detect_recharge_eq hcharge, Recharge.planWith_of_lt r hfew]
      rfl
  | failure e => exact congrArg Run.reads (Plan.run_of_failure hcharge)
  | never => exact congrArg Run.reads (Plan.run_of_never hcharge)

/-- Recharges are always looked for with a read of the state of charge. -/
theorem chargeRead_mem_reads :
    Recharge.chargeRead r ∈ (recharge.detect source now r).reads := by
  by_cases henough : Recharge.Enough source r
  · rw [reads_detect_recharge_of_enough henough]
    exact List.mem_cons_self
  · rw [reads_detect_recharge_of_few henough]
    exact List.mem_cons_self

/-- With both reads answered the candidates decide how the detection of recharges ends. -/
theorem outcome_detect_recharge {charge odometer : List (Sample Float)}
    (hcharge : source.reply (Recharge.chargeRead r) = .answer charge) (henough : 13 ≤ charge.length)
    (hodometer : source.reply (Recharge.odometerRead r) = .answer odometer) :
    (recharge.detect source now r).outcome =
      (Recharge.candidates charge odometer (r.tuning.minIncrease Recharge.defaultIncrease)
        (r.tuning.minSegment Recharge.defaultMinSegment)).elim .stuck fun found =>
          .answer (Recharge.segmentsOf r.asked odometer
            (r.tuning.minSegment Recharge.defaultMinSegment) found) := by
  rw [detect_recharge_eq hcharge, Recharge.planWith_of_le r henough, Plan.run_of_answer hodometer]
  dsimp only
  cases Recharge.candidates charge odometer (r.tuning.minIncrease Recharge.defaultIncrease)
      (r.tuning.minSegment Recharge.defaultMinSegment) with
  | none => rfl
  | some found => rfl

/-- A detection of recharges computes for ever exactly on replies with values that cannot be
compared. -/
theorem outcome_detect_recharge_eq_stuck_iff :
    (recharge.detect source now r).outcome = .stuck ↔ Recharge.Endless source r := by
  constructor
  · intro h
    -- it goes on computing, so all its reads were answered
    have hanswered := Plan.answered_of_outcome_eq_stuck h
    obtain ⟨charge, hcharge⟩ : ∃ charge : List (Sample Float),
        source.reply (Recharge.chargeRead r) = .answer charge := hanswered _ chargeRead_mem_reads
    rcases Nat.lt_or_ge charge.length Recharge.leastSamples with hfew | henough
    · rw [detect_recharge_eq hcharge, Recharge.planWith_of_lt r hfew, Plan.run] at h
      exact absurd h (by simp)
    · have hsecond : Recharge.odometerRead r ∈ (recharge.detect source now r).reads := by
        rw [reads_detect_recharge_of_enough ⟨charge, hcharge, henough⟩]
        exact List.mem_cons_of_mem _ (List.mem_singleton_self _)
      obtain ⟨odometer, hodometer⟩ : ∃ odometer : List (Sample Float),
          source.reply (Recharge.odometerRead r) = .answer odometer := hanswered _ hsecond
      refine ⟨charge, odometer, hcharge, henough, hodometer, ?_⟩
      rw [← Recharge.candidates_eq_none_iff (Nat.le_trans (by decide) henough) odometer
        (r.tuning.minIncrease Recharge.defaultIncrease)
        (r.tuning.minSegment Recharge.defaultMinSegment)]
      rw [outcome_detect_recharge hcharge henough hodometer] at h
      -- with candidates there would be an answer
      cases hfound : Recharge.candidates charge odometer
          (r.tuning.minIncrease Recharge.defaultIncrease)
          (r.tuning.minSegment Recharge.defaultMinSegment) with
      | none => rfl
      | some found =>
          rw [hfound] at h
          exact absurd h (by simp)
  · rintro ⟨charge, odometer, hcharge, henough, hodometer, hnumber⟩
    rw [outcome_detect_recharge hcharge henough hodometer,
      (Recharge.candidates_eq_none_iff (Nat.le_trans (by decide) henough) _ _ _).2 hnumber]
    rfl

/-- A detection computes for ever exactly if it looks for recharges and the replies are such that it
does. -/
theorem outcome_detect_eq_stuck_iff :
    (m.detect source now r).outcome = .stuck ↔ m = .recharge ∧ Recharge.Endless source r := by
  by_cases hm : m = .recharge
  · subst hm
    rw [outcome_detect_recharge_eq_stuck_iff, and_iff_right rfl]
  · obtain ⟨found, hplan⟩ := exists_plan_eq hm now r
    rw [detect, hplan, Plan.run]
    split <;> simp [hm, Plan.run]

end Mechanism

/-! ## Calls -/

namespace Service

/-- The mechanism that a call asks for, if there is one. -/
def Order.mechanism? : Order → Option Mechanism
  | direct m _ => some m
  | byName name _ => Mechanism.ofName? name

/-- The request of a call. -/
def Order.request : Order → Request
  | direct _ r => r
  | byName _ r => r

/-- What a call does by a mechanism for a request that is not rejected. -/
structure Serves (s : Service) (m : Mechanism) (r : Request) (call : Call) : Prop where
  /-- Six mechanisms make one read. -/
  one_read : m ≠ .recharge → call.reads = [m.firstRead r]
  /-- Recharges are looked for with a second read after enough samples in the first one. -/
  two_reads : m = .recharge → Recharge.Enough s.source r →
    call.reads = [Recharge.chargeRead r, Recharge.odometerRead r]
  /-- Otherwise there is no second read. -/
  no_second_read : m = .recharge → ¬ Recharge.Enough s.source r →
    call.reads = [Recharge.chargeRead r]
  /-- The call stops at the first read that is not answered. -/
  stops : ∀ read ∈ call.reads.dropLast, ∃ a, s.source.reply read = .answer a
  /-- Reads ask for the vehicle of the request, around its range. -/
  asks : ∀ read ∈ call.reads, read.token = r.token ∧ r.Reaches read
  /-- A call with segments had an answer to every read, and is reported as completed. -/
  completed : ∀ segments, call.outcome = .answer segments →
    (∀ read ∈ call.reads, ∃ a, s.source.reply read = .answer a) ∧
      call.reports = [.completed m segments.length]
  /-- A call without segments had a read that failed, and is reported as failed. -/
  failed : ∀ e, call.outcome = .failure e →
    (∃ f : ReadFailure, e = .unreadable f ∧ f.read ∈ call.reads ∧
      s.source.reply f.read = .failure f.failure) ∧ call.reports = [.failed m]
  /-- A read that fails ends the call with its failure. -/
  fails : ∀ f : ReadFailure, f.read ∈ call.reads → s.source.reply f.read = .failure f.failure →
    call.outcome = .failure (.unreadable f)
  /-- A call waits for ever exactly for a read without a reply. -/
  waits : call.outcome = .never ↔ ∃ read ∈ call.reads, s.source.reply read = .never
  /-- A call computes for ever exactly if it looks for recharges among values that it cannot
  compare. -/
  computes : call.outcome = .stuck ↔ m = .recharge ∧ Recharge.Endless s.source r
  /-- A call without an end is not reported. -/
  unheard : call.outcome = .never ∨ call.outcome = .stuck → call.reports = []

/-- What a call does: nothing that leaves a trace if it names no mechanism or is rejected. -/
structure Gated (s : Service) (o : Order) (call : Call) : Prop where
  unknown : ∀ name r, o = .byName name r → Mechanism.ofName? name = none →
    call = ⟨[], [], .failure (.rejected (.unknownMechanism name))⟩
  rejected : ∀ m why, o.mechanism? = some m → o.request.rejection s.now = some why →
    call = ⟨[], [], .failure (.rejected why)⟩
  served : ∀ m, o.mechanism? = some m → o.request.rejection s.now = none →
    s.Serves m o.request call

/-- The call that a detection makes. -/
theorem serves_ofRun (s : Service) (m : Mechanism) {r : Request}
    (hr : r.rejection s.now = none) :
    s.Serves m r (Call.ofRun m (m.detect s.source s.now r)) := by
  have haccepted := Request.accepted_of_rejection_eq_none hr
  have hmakes : ∀ read ∈ (m.detect s.source s.now r).reads, m.Makes r read :=
    (m.asks_makes s.now r).of_mem_reads
  constructor <;> (try rw [Call.reads_ofRun])
  case one_read => exact Mechanism.reads_detect
  case two_reads =>
    rintro rfl
    exact Mechanism.reads_detect_recharge_of_enough
  case no_second_read =>
    rintro rfl
    exact Mechanism.reads_detect_recharge_of_few
  case stops => exact Plan.answered_of_mem_dropLast
  case asks =>
    intro read hread
    exact ⟨(hmakes read hread).token, (hmakes read hread).reaches haccepted⟩
  case completed =>
    intro segments houtcome
    have hrun := Call.outcome_ofRun_eq_answer_iff.1 houtcome
    refine ⟨Plan.answered_of_outcome_eq_answer hrun, ?_⟩
    rw [Call.ofRun, hrun]
  case failed =>
    intro e houtcome
    obtain ⟨f, hrun, rfl⟩ := Call.outcome_ofRun_eq_failure_iff.1 houtcome
    refine ⟨⟨f, rfl, Plan.outcome_eq_failure_iff.1 hrun⟩, ?_⟩
    rw [Call.ofRun, hrun]
  case fails =>
    intro f hread hreply
    exact Call.outcome_ofRun_eq_failure_iff.2
      ⟨f, Plan.outcome_eq_failure_iff.2 ⟨hread, hreply⟩, rfl⟩
  case waits => exact Call.outcome_ofRun_eq_never_iff.trans Plan.outcome_eq_never_iff
  case computes =>
    exact Call.outcome_ofRun_eq_stuck_iff.trans Mechanism.outcome_detect_eq_stuck_iff
  case unheard =>
    rintro (houtcome | houtcome)
    · rw [Call.ofRun, Call.outcome_ofRun_eq_never_iff.1 houtcome]
    · rw [Call.ofRun, Call.outcome_ofRun_eq_stuck_iff.1 houtcome]

/-- Every call is gated. -/
theorem gated_answer (s : Service) (o : Order) : s.Gated o (s.answer o) := by
  -- a known mechanism decides as it does when it is given itself
  have hdirect : ∀ m, o.mechanism? = some m → s.answer o = s.getSegments m o.request := by
    intro m hm
    cases o with
    | direct m' r =>
        obtain rfl := Option.some.inj hm
        rfl
    | byName name r =>
        have hname : Mechanism.ofName? name = some m := hm
        rw [answer, getSegmentsByName, hname]
        rfl
  constructor
  · rintro name r rfl hname
    rw [answer, getSegmentsByName, hname]
    rfl
  · intro m why hm hwhy
    rw [hdirect m hm, getSegments, hwhy]
    rfl
  · intro m hm hnone
    rw [hdirect m hm, getSegments, hnone]
    exact s.serves_ofRun m hnone

/-! ## Reports of many calls -/

/-- What an observer hears of calls that are made one after the other, each on the service as it is
by then. -/
def heard (made : List (Service × Order)) : List Report :=
  made.flatMap fun c => (c.1.answer c.2).reports

/-- The report that is due for a call: that of its end, if it names a mechanism, is not rejected and
ends. -/
def dueReport (s : Service) (o : Order) : Option Report :=
  match o.mechanism?, o.request.rejection s.now, (s.answer o).outcome with
  | some m, none, .answer segments => some (.completed m segments.length)
  | some m, none, .failure _ => some (.failed m)
  | _, _, _ => none

/-- A call reports what is due, and nothing else. -/
theorem reports_answer (s : Service) (o : Order) :
    (s.answer o).reports = (s.dueReport o).toList := by
  have hgated := s.gated_answer o
  cases hm : o.mechanism? with
  | none =>
      cases o with
      | direct m r => exact absurd hm (by simp [Order.mechanism?])
      | byName name r =>
          rw [hgated.unknown name r rfl hm, dueReport, hm]
          rfl
  | some m =>
      cases hwhy : o.request.rejection s.now with
      | some why =>
          rw [hgated.rejected m why hm hwhy, dueReport, hm, hwhy]
          rfl
      | none =>
          have hserves := hgated.served m hm hwhy
          rw [dueReport, hm, hwhy]
          cases houtcome : (s.answer o).outcome with
          | answer segments => exact (hserves.completed segments houtcome).2
          | failure e => exact (hserves.failed e houtcome).2
          | never => exact hserves.unheard (Or.inl houtcome)
          | stuck => exact hserves.unheard (Or.inr houtcome)

/-- A call is reported once exactly if it names a mechanism, is not rejected, has a reply to every
read, and does not compute for ever. -/
theorem length_reports_eq_one_iff (s : Service) (o : Order) :
    (s.answer o).reports.length = 1 ↔ ∃ m, o.mechanism? = some m ∧
      o.request.rejection s.now = none ∧
        (∀ read ∈ (s.answer o).reads, s.source.reply read ≠ .never) ∧
          ¬ (m = .recharge ∧ Recharge.Endless s.source o.request) := by
  have hgated := s.gated_answer o
  rw [s.reports_answer, dueReport]
  cases hm : o.mechanism? with
  | none => simp
  | some m =>
      cases hwhy : o.request.rejection s.now with
      | some why => simp
      | none =>
          have hserves := hgated.served m hm hwhy
          have hreplied : (∀ read ∈ (s.answer o).reads, s.source.reply read ≠ .never) ↔
              (s.answer o).outcome ≠ .never := by
            rw [Ne, hserves.waits]
            simp only [not_exists, not_and, Ne]
          simp only [Option.some.injEq, true_and, exists_eq_left', hreplied, ← hserves.computes]
          cases (s.answer o).outcome <;> simp

/-- Calls that are made one after the other are gated before any read. One that is not rejected is
reported once, unless it waits for a reply or computes for ever. An observer hears exactly the
reports that are due, in the order of the calls; nothing else is heard when all calls are made on
one service as it stands. -/
theorem gated_and_reported (made : List (Service × Order)) :
    (∀ c ∈ made, c.1.Gated c.2 (c.1.answer c.2)) ∧
      (∀ c ∈ made, (c.1.answer c.2).reports.length = 1 ↔
        ∃ m, c.2.mechanism? = some m ∧ c.2.request.rejection c.1.now = none ∧
          (∀ read ∈ (c.1.answer c.2).reads, c.1.source.reply read ≠ .never) ∧
            ¬ (m = .recharge ∧ Recharge.Endless c.1.source c.2.request)) ∧
      heard made = (made.filterMap fun c => c.1.dueReport c.2) ∧
      ∀ (s : Service) (orders : List Order), s.ledger orders = orders.filterMap s.dueReport := by
  refine ⟨fun c _ => c.1.gated_answer c.2, fun c _ => c.1.length_reports_eq_one_iff c.2, ?_,
    fun s orders => ?_⟩
  · rw [List.filterMap_eq_flatMap_toList, heard]
    simp only [reports_answer]
  · rw [List.filterMap_eq_flatMap_toList, ledger, List.flatMap_map]
    simp only [reports_answer]

/-- What an observer relies on: where a source answers or fails every read, each call that names a
mechanism and is not rejected is reported once. -/
def ReportsOnce (s : Service) (o : Order) : Prop :=
  (∀ read, s.source.reply read ≠ .never) → ∀ m, o.mechanism? = some m →
    o.request.rejection s.now = none → (s.answer o).reports.length = 1

/-- A state of charge so large that its running sums overflow: they are infinite from the second
reading on, and the difference of two of them is no number. -/
def overflowLog : Log :=
  ⟨(List.range 13).map fun (i : Nat) =>
    ⟨42, Signal.stateOfCharge, .ofSeconds (60 * (i : Int)), 1.7e308⟩⟩

theorem charges_overflowLog :
    overflowLog.charges Ignition.twoHours =
      overflowLog.records.map fun r => ⟨r.time, r.value⟩ :=
  Log.levels_eq_map (by decide) (by decide) (by decide)

/-- All readings are finite, and still the call has no end. -/
theorem endless_overflowLog : Recharge.Endless overflowLog.source Ignition.twoHours := by
  refine ⟨overflowLog.charges Ignition.twoHours, overflowLog.odometers Ignition.twoHours, rfl, ?_,
    rfl, ?_⟩
  · rw [charges_overflowLog]
    decide
  · rw [charges_overflowLog]
    decide +kernel

/-- The call reads the state of charge and the odometer, has an answer to both, and is never
reported. -/
theorem not_reportsOnce_overflowLog :
    (∀ r ∈ overflowLog.records, r.value.isFinite = true) ∧
      ¬ ReportsOnce ⟨overflowLog.source, .ofSeconds 7200⟩
        (.direct .recharge Ignition.twoHours) := by
  refine ⟨by decide +kernel, fun h => ?_⟩
  obtain ⟨m, hm, -, -, hends⟩ := (length_reports_eq_one_iff _ _).1
    (h overflowLog.reply_ne_never .recharge rfl (by decide))
  obtain rfl := Option.some.inj hm
  exact hends ⟨rfl, endless_overflowLog⟩

end Service

end Telematics
