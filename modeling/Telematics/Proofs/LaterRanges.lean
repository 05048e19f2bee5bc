import Telematics.Proofs.IgnitionTrips
import Telematics.Proofs.LogReads
import Telematics.Proofs.Outcomes

/-!
# Trips in a range that begins later

Two requests that differ only in where the asked range begins read different parts of the same
history, debounce them apart and pair them apart. Here the later request is answered from the answer
to the earlier one. The changes that it reads are the later ones of the same changes
(`changes_laterStart`), because a log carries the state across the start of a read. A walk over
changes in two parts is the walk over the second part from the state at the cut, after trips that
are over in the first part (`exists_pair_append`), because a blip is told by what comes after it.

So, if no trip is open at the cut, the later request finds the trips that start after it
(`trips_append`), and `detect_later_start` says what becomes of the segments.
-/

set_option autoImplicit false

namespace Telematics

namespace Log

/-! ## Changes from a later start on -/

/-- Changes from a later start on are the later ones of the changes. -/
theorem changes_laterStart (log : Log) (token : TokenId) (signal : String)
    {start later stop : Instant} (h : start ≤ later) :
    log.changes token signal ⟨later, stop⟩ =
      (log.changes token signal ⟨start, stop⟩).filter fun c => decide (later ≤ c.time) := by
  rw [changes_eq_filter, changes_eq_filter, List.filter_filter]
  apply List.filter_congr
  intro c _
  by_cases hlater : later ≤ c.time
  · simp [hlater, Instant.le_trans h hlater]
  · simp [hlater]

end Log

/-! ## Later ranges -/

/-- The same request for a range that begins later. -/
def Request.laterRange (r : Request) (later : Instant) : Request :=
  { r with asked := ⟨later, r.asked.stop⟩ }

namespace Segment

/-- A segment is in progress, or it ends after an instant. -/
def endsAfter (t : Instant) (s : Segment) : Bool :=
  s.isOngoing || s.stop.any fun stop => decide (t < stop)

/-- A segment as a range with this start tells it. -/
def toldFrom (start : Instant) (s : Segment) : Segment :=
  { s with startedBefore := decide (s.start < start) }

/-- The segments of an answer that are in progress or end after a later start of the range, told
from there. -/
def remaining (later : Instant) (segments : List Segment) : List Segment :=
  (segments.filter (endsAfter later)).map (toldFrom later)

end Segment

namespace Ignition

open Segment (endsAfter toldFrom remaining)

variable {minIdle : Span} {start : Option Instant} {early late changes : List StateChange}

/-! ## A walk in two parts -/

/-- A trip that began in a part of the changes, or before it, and is over in that part. -/
def OverIn (changes : List StateChange) (trip : Trip) : Prop :=
  ∃ c ∈ changes, trip.stop = some c.time

/-- The open trip began where the walk did, or in a part of the changes. -/
def OpenedIn (start : Option Instant) (changes : List StateChange) (t : Instant) : Prop :=
  start = some t ∨ ∃ c ∈ changes, c.time = t

theorem OverIn.cons {c : StateChange} {trip : Trip} (h : OverIn changes trip) :
    OverIn (c :: changes) trip := by
  obtain ⟨d, hd, hstop⟩ := h
  exact ⟨d, List.mem_cons_of_mem c hd, hstop⟩

/-- What was opened by the first change or later was opened in the changes. -/
theorem OpenedIn.cons {c : StateChange} {t : Instant} {next : Option Instant}
    (h : OpenedIn next changes t) (hnext : ∀ t, next = some t → OpenedIn start [c] t) :
    OpenedIn start (c :: changes) t := by
  rcases h with h | ⟨d, hd, rfl⟩
  · rcases hnext t h with h | ⟨d, hd, rfl⟩
    · exact Or.inl h
    · exact Or.inr ⟨d, List.mem_cons.2 (Or.inl (List.mem_singleton.1 hd)), rfl⟩
  · exact Or.inr ⟨d, List.mem_cons_of_mem c hd, rfl⟩

/-- The walk over changes in two parts: trips that are over in the first part, and then the walk
over the second part, from the state that the first part leaves. -/
theorem exists_pair_append (minIdle : Span) (start : Option Instant)
    (early late : List StateChange) :
    ∃ (ended : List Trip) (mid : Option Instant),
      pair start (debounce minIdle (early ++ late)) =
        ended ++ pair mid (debounce minIdle late) ∧
      (∀ trip ∈ ended, OverIn early trip) ∧ ∀ t, mid = some t → OpenedIn start early t := by
  -- the walk goes on from any state, so the state is part of the induction
  induction early generalizing start with
  | nil => exact ⟨[], start, rfl, by simp, fun t ht => Or.inl ht⟩
  | cons c early ih =>
      cases start with
      | none =>
          rw [List.cons_append, pair_none_debounce_cons]
          obtain ⟨ended, mid, hpair, hover, hmid⟩ := ih (if opens c then some c.time else none)
          refine ⟨ended, mid, hpair, fun trip htrip => (hover trip htrip).cons, fun t ht => ?_⟩
          apply (hmid t ht).cons
          intro t ht
          split at ht
          · exact Or.inr ⟨c, List.mem_cons_self, Option.some.inj ht⟩
          · exact absurd ht (by simp)
      | some t =>
          rw [List.cons_append, pair_some_debounce_cons]
          split
          · -- the kept off ends the open trip; the look-ahead that keeps it may reach into `late`
            obtain ⟨ended, mid, hpair, hover, hmid⟩ := ih none
            refine ⟨⟨t, some c.time⟩ :: ended, mid, by rw [hpair, List.cons_append], ?_, ?_⟩
            · intro trip htrip
              rcases List.mem_cons.1 htrip with rfl | htrip
              · exact ⟨c, List.mem_cons_self, rfl⟩
              · exact (hover trip htrip).cons
            · intro t' ht'
              exact (hmid t' ht').cons fun _ h => absurd h (by simp)
          · obtain ⟨ended, mid, hpair, hover, hmid⟩ := ih (some t)
            refine ⟨ended, mid, hpair, fun trip htrip => (hover trip htrip).cons, fun t' ht' => ?_⟩
            exact (hmid t' ht').cons fun _ h => Or.inl h

/-- A trip that is open when the walk begins is the first one that it finds, and it is over at one
of the changes, if it is. -/
theorem exists_mem_pair_some (minIdle : Span) (t : Instant) (changes : List StateChange) :
    ∃ trip ∈ pair (some t) (debounce minIdle changes), trip.start = t := by
  obtain ⟨starts, trips, -, hpair⟩ := exists_found_pair minIdle (some t) changes
  rw [hpair]
  exact ⟨⟨t, firstStop minIdle changes⟩, by simp, rfl⟩

/-- Every trip that starts before an instant is over before it. -/
def OverBefore (cut : Instant) (found : List Trip) : Prop :=
  ∀ trip ∈ found, trip.start < cut → ∃ stop, trip.stop = some stop ∧ stop < cut

/-- If every trip that starts before a cut is over before it, the changes from the cut on make the
trips that start later. -/
theorem trips_append {cut : Instant} (hearly : ∀ c ∈ early, c.time < cut)
    (hlate : ∀ c ∈ late, cut ≤ c.time)
    (hover : OverBefore cut (trips minIdle (early ++ late))) :
    ∃ ended, trips minIdle (early ++ late) = ended ++ trips minIdle late ∧
      ∀ trip ∈ ended, ∃ stop, trip.stop = some stop ∧ stop < cut := by
  obtain ⟨ended, mid, hpair, hclosed, hmid⟩ := exists_pair_append minIdle none early late
  cases mid with
  | none =>
      refine ⟨ended, hpair, fun trip htrip => ?_⟩
      obtain ⟨c, hc, hstop⟩ := hclosed trip htrip
      exact ⟨c.time, hstop, hearly c hc⟩
  | some t =>
      -- a trip that is open at the cut would be over before it, but no later change is
      obtain ⟨trip, htrip, hstart⟩ := exists_mem_pair_some minIdle t late
      have hbefore : trip.start < cut := by
        rcases hmid t rfl with h | ⟨c, hc, rfl⟩
        · exact absurd h (by simp)
        · rw [hstart]
          exact hearly c hc
      have hmem : trip ∈ trips minIdle (early ++ late) := by
        rw [trips, hpair]
        exact List.mem_append_right ended htrip
      obtain ⟨stop, hstop, hlt⟩ := hover trip hmem hbefore
      obtain ⟨c, hc, rfl⟩ := exists_stop_of_mem_pair htrip hstop
      exact absurd hlt (Instant.not_lt.2 (hlate c hc))

/-- Ascending changes are those before a cut and then those from it on. -/
theorem exists_append_filter (hsorted : changes.Pairwise fun a b => a.time ≤ b.time)
    (cut : Instant) :
    ∃ early, changes = early ++ changes.filter (fun c => decide (cut ≤ c.time)) ∧
      ∀ c ∈ early, c.time < cut := by
  induction changes with
  | nil => exact ⟨[], rfl, by simp⟩
  | cons c later ih =>
      obtain ⟨hc, hlater⟩ := List.pairwise_cons.1 hsorted
      by_cases hcut : cut ≤ c.time
      · refine ⟨[], ?_, by simp⟩
        symm
        apply List.filter_eq_self.2
        intro d hd
        rcases List.mem_cons.1 hd with rfl | hd
        · exact decide_eq_true hcut
        · exact decide_eq_true (Instant.le_trans hcut (hc d hd))
      · obtain ⟨early, happend, hearly⟩ := ih hlater
        refine ⟨c :: early, ?_, fun d hd => ?_⟩
        · rw [List.filter_cons_of_neg (by simp [hcut]), List.cons_append, ← happend]
        · rcases List.mem_cons.1 hd with rfl | hd
          · exact Instant.not_le.1 hcut
          · exact hearly d hd

/-! ## Segments of a later range -/

/-- What a later range reports of a trip is what remains of the segment. -/
theorem segment?_later {first later stop : Instant} (h : first ≤ later) (shortest : Span)
    (trip : Trip) :
    segment? ⟨later, stop⟩ shortest trip =
      ((segment? ⟨first, stop⟩ shortest trip).filter (endsAfter later)).map (toldFrom later) := by
  cases trip with
  | mk start ended =>
      cases ended with
      | none =>
          simp only [segment?]
          split
          · rfl
          · rfl
      | some ended =>
          simp only [segment?, Segment.closed?]
          by_cases hover : ended ≤ later
          · -- a trip that is over by then is left out, whether it was reported or not
            rw [if_pos (Or.inl hover)]
            symm
            rw [Option.map_eq_none_iff, Option.filter_eq_none_iff]
            intro s hs
            split at hs
            · exact absurd hs (by simp)
            · rw [Option.ite_none_right_eq_some] at hs
              obtain rfl := Option.some.inj hs.2
              simp [endsAfter, Instant.not_lt.2 hover]
          · have hfirst : ¬ ended ≤ first := fun hle => hover (Instant.le_trans hle h)
            have hafter : later < ended := Instant.not_le.1 hover
            simp only [hover, hfirst, false_or]
            split
            · rfl
            · split
              · simp [endsAfter, toldFrom, hafter, Option.filter_some]
              · rfl

/-- A trip that is over by then is not reported. -/
theorem segment?_eq_none_of_over {asked : Range} {shortest : Span} {trip : Trip} {stop : Instant}
    (hstop : trip.stop = some stop) (hover : stop ≤ asked.start) :
    segment? asked shortest trip = none := by
  simp only [segment?, hstop]
  exact if_pos (Or.inl hover)

theorem filterMap_segment?_later {first later stop : Instant} (h : first ≤ later) (shortest : Span)
    (found : List Trip) :
    found.filterMap (segment? ⟨later, stop⟩ shortest) =
      remaining later (found.filterMap (segment? ⟨first, stop⟩ shortest)) := by
  rw [remaining, List.filter_filterMap, List.map_filterMap]
  apply List.filterMap_congr
  intro trip _
  exact segment?_later h shortest trip

/-- The later request reads the changes from its own lookback on. -/
theorem ignitionChanges_laterRange (log : Log) {r : Request} {later : Instant}
    (h : r.asked.start ≤ later) :
    log.ignitionChanges (r.laterRange later) =
      (log.ignitionChanges r).filter fun c => decide (later - lookback ≤ c.time) :=
  log.changes_laterStart _ _ (Int.sub_le_sub_right h lookback)

/-- If every trip that starts more than a day before the later start of a range is over by then, the
answer for the later range is what remains of the answer for the earlier one: the segments in
progress and those that end after the later start, told from there. -/
theorem detect_later_start {log : Log} {r : Request} {later : Instant}
    (h : r.asked.start ≤ later)
    (hover : OverBefore (later - lookback)
      (trips (r.tuning.minIdle defaultMinIdle) (log.ignitionChanges r))) (now now' : Instant) :
    ∃ found, (Mechanism.ignition.detect log.source now r).outcome = .answer found ∧
      (Mechanism.ignition.detect log.source now' (r.laterRange later)).outcome =
        .answer (remaining later found) := by
  refine ⟨segments r.asked r.tuning (log.ignitionChanges r), Log.outcome_ignition log now r, ?_⟩
  rw [Log.outcome_ignition, ignitionChanges_laterRange log h]
  apply congrArg Outcome.answer
  have hsorted : (log.ignitionChanges r).Pairwise fun a b => a.time ≤ b.time :=
    log.ascending_changes _ _ _
  obtain ⟨early, hchanges, hearly⟩ := exists_append_filter hsorted (later - lookback)
  have hlate : ∀ c ∈ (log.ignitionChanges r).filter fun c => decide (later - lookback ≤ c.time),
      later - lookback ≤ c.time := fun c hc => of_decide_eq_true (List.mem_filter.1 hc).2
  rw [hchanges] at hover
  obtain ⟨ended, htrips, hclosed⟩ := trips_append hearly hlate hover
  -- trips that are over a day before the later start are over by that start
  have hnone : ended.filterMap (segment? ⟨later, r.asked.stop⟩ (r.tuning.minSegment
      defaultMinSegment)) = [] := by
    apply List.filterMap_eq_nil_iff.2
    intro trip htrip
    obtain ⟨stop, hstop, hlt⟩ := hclosed trip htrip
    exact segment?_eq_none_of_over hstop
      (Int.le_trans (Int.le_of_lt hlt) (Int.sub_le_self _ (by decide)))
  calc segments ⟨later, r.asked.stop⟩ r.tuning
        ((log.ignitionChanges r).filter fun c => decide (later - lookback ≤ c.time))
      = (trips (r.tuning.minIdle defaultMinIdle) (log.ignitionChanges r)).filterMap
          (segment? ⟨later, r.asked.stop⟩ (r.tuning.minSegment defaultMinSegment)) := by
        rw [segments]
        conv_rhs => rw [hchanges, htrips, List.filterMap_append, hnone, List.nil_append]
    _ = remaining later (segments r.asked r.tuning (log.ignitionChanges r)) :=
        filterMap_segment?_later h _ _

/-- A vehicle with a ride in the second hour, one in the thirty-first, and one from the fortieth
hour on. -/
def threeRides : Log :=
  ⟨[⟨42, Signal.ignition, .ofSeconds 0, 0.0⟩, ⟨42, Signal.ignition, .ofSeconds 3600, 1.0⟩,
    ⟨42, Signal.ignition, .ofSeconds 7200, 0.0⟩, ⟨42, Signal.ignition, .ofSeconds 108000, 1.0⟩,
    ⟨42, Signal.ignition, .ofSeconds 111600, 0.0⟩, ⟨42, Signal.ignition, .ofSeconds 140400, 1.0⟩]⟩

/-- A request for the first forty hours. -/
def fortyHours : Request := ⟨42, ⟨.ofSeconds 0, .ofSeconds 144000⟩, Tuning.default⟩

theorem trips_threeRides :
    trips (fortyHours.tuning.minIdle defaultMinIdle) (threeRides.ignitionChanges fortyHours) =
      [⟨.ofSeconds 3600, some (.ofSeconds 7200)⟩, ⟨.ofSeconds 108000, some (.ofSeconds 111600)⟩,
        ⟨.ofSeconds 140400, none⟩] := by
  have hrows : threeRides.rows 42 Signal.ignition =
      [⟨.ofSeconds 0, 0.0⟩, ⟨.ofSeconds 3600, 1.0⟩, ⟨.ofSeconds 7200, 0.0⟩,
        ⟨.ofSeconds 108000, 1.0⟩, ⟨.ofSeconds 111600, 0.0⟩, ⟨.ofSeconds 140400, 1.0⟩] :=
    Log.rows_eq_map (by decide) (by decide)
  show trips _ (Log.changesAfter _ _ (Series.upTo _ (threeRides.rows 42 Signal.ignition))) = _
  rw [hrows]
  decide +kernel

/-- The range may begin in the second ride: the first one is over long before. -/
theorem detect_later_start_threeRides :
    OverBefore (Instant.ofSeconds 109800 - lookback)
        (trips (fortyHours.tuning.minIdle defaultMinIdle)
          (threeRides.ignitionChanges fortyHours)) ∧
      ∃ found, (Mechanism.ignition.detect threeRides.source (.ofSeconds 144000)
          fortyHours).outcome = .answer found ∧
        (Mechanism.ignition.detect threeRides.source (.ofSeconds 150000)
          (fortyHours.laterRange (.ofSeconds 109800))).outcome =
            .answer (remaining (.ofSeconds 109800) found) := by
  have hover : OverBefore (Instant.ofSeconds 109800 - lookback)
      (trips (fortyHours.tuning.minIdle defaultMinIdle)
        (threeRides.ignitionChanges fortyHours)) := by
    rw [trips_threeRides]
    intro trip htrip hstart
    rcases List.mem_cons.1 htrip with rfl | htrip
    · exact ⟨.ofSeconds 7200, rfl, by decide⟩
    · -- the others start later
      rcases List.mem_cons.1 htrip with rfl | htrip
      · exact absurd hstart (by decide)
      · obtain rfl := List.mem_singleton.1 htrip
        exact absurd hstart (by decide)
  exact ⟨hover, detect_later_start (by decide) hover _ _⟩

end Ignition

end Telematics
