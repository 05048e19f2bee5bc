import Telematics.Proofs.ActiveMinutes
import Telematics.Proofs.ActivityRuns

/-!
# Covered time

A closed segment covers the time from its start to its stop, and one in progress the time to the end
of the asked range. Here the trips from arrivals are compared by the time that they cover. Two
activities are compared first: when every active stretch of one lies within one of the other, the
gap tolerance is no smaller and the shortest trip no longer, then the other covers all that the
first one covers (`covered_keepStarts_ofStretches`), although its last run may be another one, and a
trip in progress of the one may be closed in the other.

It follows that more rows never take covered time away (`coversMore_of_subperm`), and that more
tolerant tunables do not either (`coversMore_of_tolerates`).
-/

set_option autoImplicit false

namespace Telematics

namespace Segment

/-- A segment covers the instants from its start to its stop, or to the end of the asked range. -/
def Covers (askedStop : Instant) (s : Segment) (t : Instant) : Prop :=
  s.start ≤ t ∧ t ≤ s.reach askedStop

/-- One of the segments covers an instant. -/
def Covered (askedStop : Instant) (segments : List Segment) (t : Instant) : Prop :=
  ∃ s ∈ segments, s.Covers askedStop t

/-! ## Segments that keep the starts of runs -/

variable {asked r : Range} {s : Segment} {runs : List Range} {lastOngoing : Bool}

/-- A segment that starts with a run, and whose duration is that up to the instant it reaches. -/
structure KeptFrom (asked r : Range) (s : Segment) : Prop where
  start_eq : s.start = r.start
  forward : r.start ≤ s.reach asked.stop
  duration_eq : s.durationSeconds = durationOf (s.reach asked.stop - r.start)

theorem keptFrom_of_capped (h : capped asked r = some s) :
    KeptFrom asked r s ∧ r.start < r.stop ∧ s.reach asked.stop = min r.stop asked.stop := by
  obtain ⟨hlt, rfl⟩ := closed?_eq_some h
  refine ⟨⟨rfl, Int.le_of_lt hlt, rfl⟩, ?_, rfl⟩
  exact Int.lt_of_lt_of_le hlt (Int.min_le_left _ _)

theorem keptFrom_of_cappedOngoing (hstart : r.start < asked.stop)
    (h : cappedOngoing asked r = some s) :
    KeptFrom asked r s ∧ s.reach asked.stop = asked.stop := by
  obtain rfl := Option.some.inj h
  exact ⟨⟨rfl, Int.le_of_lt hstart, rfl⟩, rfl⟩

/-- A segment of an earlier start that reaches farther covers more, and is reported as longer. -/
theorem KeptFrom.longer {q : Range} {s' : Segment} (hs : KeptFrom asked r s)
    (hs' : KeptFrom asked q s') (hstart : q.start ≤ r.start)
    (hreach : s.reach asked.stop ≤ s'.reach asked.stop) :
    s.duration ≤ s'.duration ∧ ∀ t, s.Covers asked.stop t → s'.Covers asked.stop t := by
  constructor
  · rw [duration, duration, Span.seconds_le_seconds_iff, hs.duration_eq, hs'.duration_eq]
    exact durationOf_le_durationOf (Int.sub_nonneg_of_le hs.forward) (Int.sub_le_sub hreach hstart)
  · intro t ht
    refine ⟨?_, Instant.le_trans ht.2 hreach⟩
    rw [hs'.start_eq]
    rw [Covers, hs.start_eq] at ht
    exact Instant.le_trans hstart ht.1

/-- A segment comes from one of the runs; one in progress comes from the last one. -/
theorem exists_run_of_mem_keepStarts (hs : s ∈ keepStarts asked lastOngoing runs) :
    ∃ r ∈ runs, capped asked r = some s ∨
      lastOngoing = true ∧ runs.getLast? = some r ∧ cappedOngoing asked r = some s := by
  rcases mem_ofRanges_iff.1 hs with ⟨r, hr, hrs⟩ | ⟨r, hr, hrs⟩
  · exact ⟨r, List.dropLast_subset runs hr, Or.inl hrs⟩
  · refine ⟨r, List.mem_of_getLast? hr, ?_⟩
    cases lastOngoing with
    | true => exact Or.inr ⟨rfl, hr, hrs⟩
    | false => exact Or.inl hrs

/-- The last run, if it goes on, gives a segment to the end of the asked range. -/
theorem exists_mem_keepStarts_of_getLast? (hstart : r.start < asked.stop)
    (hlast : runs.getLast? = some r) :
    ∃ s ∈ keepStarts asked true runs, KeptFrom asked r s ∧ s.reach asked.stop = asked.stop :=
  ⟨_, mem_ofRanges_iff.2 (Or.inr ⟨r, hlast, rfl⟩), keptFrom_of_cappedOngoing hstart rfl⟩

/-- A run is one of the inner ones or the last one. -/
theorem mem_dropLast_or_getLast?_eq (hr : r ∈ runs) :
    r ∈ runs.dropLast ∨ runs.getLast? = some r := by
  cases hlast : runs.getLast? with
  | none =>
      rw [List.getLast?_eq_none_iff.1 hlast] at hr
      exact absurd hr List.not_mem_nil
  | some last =>
      rw [← List.dropLast_append_getLast? last hlast] at hr
      rcases List.mem_append.1 hr with hr | hr
      · exact Or.inl hr
      · exact Or.inr (by rw [List.mem_singleton.1 hr])

/-- Each run gives a segment that reaches to its stop, as far as the asked range goes. -/
theorem exists_mem_keepStarts_of_mem (hr : r ∈ runs) (hforward : r.start < r.stop)
    (hstart : r.start < asked.stop) :
    ∃ s ∈ keepStarts asked lastOngoing runs,
      KeptFrom asked r s ∧ min r.stop asked.stop ≤ s.reach asked.stop := by
  have hcapped : ∃ s, capped asked r = some s :=
    ⟨_, if_pos (Int.lt_min.2 ⟨hforward, hstart⟩)⟩
  obtain ⟨s, hs⟩ := hcapped
  obtain ⟨hkept, -, hreach⟩ := keptFrom_of_capped hs
  rcases mem_dropLast_or_getLast?_eq hr with hinner | hlast
  · refine ⟨s, mem_ofRanges_iff.2 (Or.inl ⟨r, hinner, hs⟩), hkept, ?_⟩
    rw [hreach]
    exact Int.le_refl _
  · -- the last run has a rule of its own
    cases lastOngoing with
    | true =>
        obtain ⟨s', hs', hkept', hreach'⟩ := exists_mem_keepStarts_of_getLast? hstart hlast
        refine ⟨s', hs', hkept', ?_⟩
        rw [hreach']
        exact Int.min_le_right _ _
    | false =>
        refine ⟨s, mem_ofRanges_iff.2 (Or.inr ⟨r, hlast, hs⟩), hkept, ?_⟩
        rw [hreach]
        exact Int.le_refl _

/-- A finished segment of a run that lies within one of other runs is no longer than a segment of
these, and covers no more. -/
theorem exists_longer_of_capped {q : Range} (hs : capped asked r = some s) (hq : q ∈ runs)
    (hrq : r.Within q) (hstart : q.start < asked.stop) :
    ∃ s' ∈ keepStarts asked lastOngoing runs,
      s.duration ≤ s'.duration ∧ ∀ t, s.Covers asked.stop t → s'.Covers asked.stop t := by
  obtain ⟨hkept, hforward, hreach⟩ := keptFrom_of_capped hs
  have hqforward : q.start < q.stop :=
    Int.lt_of_le_of_lt hrq.1 (Int.lt_of_lt_of_le hforward hrq.2)
  obtain ⟨s', hs', hkept', hreach'⟩ := exists_mem_keepStarts_of_mem hq hqforward hstart
  refine ⟨s', hs', hkept.longer hkept' hrq.1 ?_⟩
  have hmin : min r.stop asked.stop ≤ min q.stop asked.stop :=
    Int.le_min.2 ⟨Int.le_trans (Int.min_le_left _ _) hrq.2, Int.min_le_right _ _⟩
  rw [hreach]
  exact Instant.le_trans hmin hreach'

/-- A segment in progress of a run that lies within the last one of other runs covers no more than
that one, if it is in progress as well. -/
theorem exists_longer_of_cappedOngoing {q : Range} (hs : cappedOngoing asked r = some s)
    (hstart : r.start < asked.stop) (hlast : runs.getLast? = some q) (hrq : r.Within q) :
    ∃ s' ∈ keepStarts asked true runs,
      s.duration ≤ s'.duration ∧ ∀ t, s.Covers asked.stop t → s'.Covers asked.stop t := by
  obtain ⟨hkept, hreach⟩ := keptFrom_of_cappedOngoing hstart hs
  have hqstart : q.start < asked.stop := Int.lt_of_le_of_lt hrq.1 hstart
  obtain ⟨s', hs', hkept', hreach'⟩ := exists_mem_keepStarts_of_getLast? hqstart hlast
  refine ⟨s', hs', hkept.longer hkept' hrq.1 ?_⟩
  rw [hreach, hreach']
  exact Int.le_refl _

end Segment

namespace Activity

variable {asked : Range} {now : Instant} {gap wide minDuration shorter : Span}
  {active others : List Range}

/-- A run that lies within a merged range of the other activity is relevant there as well. -/
theorem mem_relevant_of_within {runs more : List Range} {m q : Range}
    (hshorter : shorter ≤ minDuration) (hm : m ∈ relevant asked minDuration runs) (hq : q ∈ more)
    (hmq : m.Within q) :
    q ∈ relevant asked shorter more := by
  obtain ⟨-, hlong, hover⟩ := mem_relevant_iff.1 hm
  refine mem_relevant_iff.2 ⟨hq, ?_, Int.lt_of_lt_of_le hover hmq.2⟩
  have hlength : m.length ≤ q.length := Int.sub_le_sub hmq.2 hmq.1
  exact Int.le_trans hshorter (Int.le_trans hlong hlength)

/-- Stretches that start before an instant are merged to ranges that do. -/
theorem start_lt_of_mem_merge {t : Instant} (h : ∀ a ∈ active, a.start < t) {m : Range}
    (hm : m ∈ Range.merge gap active) : m.start < t :=
  Range.forall_mem_mergeWith (P := fun a => a.start < t) (fun _ _ ha _ => ha) h m hm

/-- A merged range that stops at most the gap before the end of the asked range is the last relevant
one. -/
theorem getLast?_relevant_of_trailing {q : Range}
    (hstart : ∀ b ∈ others, b.start < asked.stop)
    (hq : q ∈ relevant asked shorter (Range.merge wide others))
    (htrailing : asked.stop - q.stop ≤ wide) :
    (relevant asked shorter (Range.merge wide others)).getLast? = some q := by
  have hapart : (relevant asked shorter (Range.merge wide others)).Pairwise
      fun a b => a.Apart wide b :=
    pairwise_relevant (Range.pairwise_merge_apart wide others)
  obtain ⟨init, later, hsplit⟩ := List.append_of_mem hq
  cases later with
  | nil => rw [hsplit, List.getLast?_concat]
  | cons next later =>
      -- a later range would start after the end of the asked range
      have hnext : next ∈ relevant asked shorter (Range.merge wide others) := by
        rw [hsplit]
        simp
      have hbefore : next.start < asked.stop :=
        start_lt_of_mem_merge hstart (mem_relevant_iff.1 hnext).1
      rw [hsplit, List.pairwise_append, List.pairwise_cons] at hapart
      obtain ⟨-, hfar⟩ := hapart.2.1.1 next List.mem_cons_self
      rw [Instant.sub_le_iff] at htrailing
      rw [Instant.lt_iff] at hbefore
      exact absurd (Int.lt_of_le_of_lt htrailing hfar) (Int.not_lt.2 (Int.le_of_lt hbefore))

/-- Where each active stretch lies within another one, the gap tolerance is no smaller and the
shortest segment is no longer, no covered time is lost. -/
theorem covered_keepStarts_ofStretches (hwide : gap ≤ wide) (hshorter : shorter ≤ minDuration)
    (hwithin : ∀ a ∈ active, a.start ≤ a.stop ∧ ∃ b ∈ others, a.Within b)
    (hactive : ∀ a ∈ active, a.start < asked.stop)
    (hothers : ∀ b ∈ others, b.start < asked.stop) {t : Instant}
    (h : Segment.Covered asked.stop
      ((ofStretches asked now gap minDuration active).keepStarts asked minDuration) t) :
    Segment.Covered asked.stop
      ((ofStretches asked now wide shorter others).keepStarts asked shorter) t := by
  obtain ⟨s, hs, hcovers⟩ := h
  obtain ⟨hmem, hlong⟩ := List.mem_filter.1 hs
  rw [decide_eq_true_eq] at hlong
  obtain ⟨m, hm, hcase⟩ := Segment.exists_run_of_mem_keepStarts hmem
  have hmerged := (mem_relevant_iff.1 hm).1
  obtain ⟨q, hq, hmq⟩ := Range.exists_within_merge hwide hwithin hmerged
  have hqrun := mem_relevant_of_within hshorter hm hq hmq
  -- the run that the segment comes from lies within a run whose segment reaches as far
  have hlonger : ∃ s' ∈ Segment.keepStarts asked
      (ofStretches asked now wide shorter others).lastOngoing
      (ofStretches asked now wide shorter others).runs,
      s.duration ≤ s'.duration ∧ ∀ t, s.Covers asked.stop t → s'.Covers asked.stop t := by
    rcases hcase with hcapped | ⟨hongoing, hlast, hcapped⟩
    · exact Segment.exists_longer_of_capped hcapped hqrun hmq (start_lt_of_mem_merge hothers hq)
    · -- the outer run trails as well, and so it is the last one
      obtain ⟨last, hlast', htrailing, hrecent⟩ := lastTrails_iff.1 hongoing
      obtain rfl := Option.some.inj (hlast.symm.trans hlast')
      have hqtrailing : asked.stop - q.stop ≤ wide :=
        Int.le_trans (Int.sub_le_sub_left hmq.2 _) (Int.le_trans htrailing hwide)
      have hqlast := getLast?_relevant_of_trailing hothers hqrun hqtrailing
      have hqongoing : (ofStretches asked now wide shorter others).lastOngoing = true :=
        lastTrails_iff.2 ⟨q, hqlast, hqtrailing, Int.le_trans hrecent hwide⟩
      rw [hqongoing]
      exact Segment.exists_longer_of_cappedOngoing hcapped (start_lt_of_mem_merge hactive hmerged)
        hqlast hmq
  obtain ⟨s', hs', hduration, hcover⟩ := hlonger
  refine ⟨s', List.mem_filter.2 ⟨hs', decide_eq_true ?_⟩, hcover t hcovers⟩
  exact Int.le_trans hshorter (Int.le_trans hlong hduration)

end Activity

namespace Arrivals

/-! ## Trips from arrivals -/

variable {log more : Log} {r : Request} {tuning : Tuning}

/-- With the second tuning gaps may be as wide, trips as short and counts as low as with the first
one. -/
structure Tolerates (t t' : Tuning) : Prop where
  gap_le : gap t ≤ gap t'
  minDuration_le : minDuration t' ≤ minDuration t
  threshold_le : t'.countThreshold defaultThreshold ≤ t.countThreshold defaultThreshold

theorem Tolerates.refl (t : Tuning) : Tolerates t t :=
  ⟨Int.le_refl _, Int.le_refl _, Nat.le_refl _⟩

/-- The same vehicle and time with other tunables. -/
def retuned (r : Request) (tuning : Tuning) : Request := { r with tuning := tuning }

/-- A mechanism answers one request from one log and another request from another log, and the
second answer covers all the time that the first one covers. -/
def CoversMore (m : Mechanism) (now : Instant) (log : Log) (r : Request) (more : Log)
    (r' : Request) : Prop :=
  ∃ found found',
    (m.detect log.source now r).outcome = .answer found ∧
    (m.detect more.source now r').outcome = .answer found' ∧
    ∀ t, Segment.Covered r.asked.stop found t → Segment.Covered r'.asked.stop found' t

/-- The first mechanism asks for the windows with enough rows. -/
theorem frequencyQuery_eq (r : Request) :
    frequencyQuery r = Log.counting ⟨r.asked.start.alignDown windowSeconds, r.asked.stop⟩
      windowSeconds (r.tuning.countThreshold defaultThreshold) := rfl

/-- An active window starts before the end of the asked range and stops later than it starts. -/
theorem bounds_of_mem_activeWindows {a : Range}
    (ha : a ∈ (log.windows r.token (frequencyQuery r)).map Window.range) :
    a.start ≤ a.stop ∧ a.start < r.asked.stop := by
  obtain ⟨w, hw, rfl⟩ := List.mem_map.1 ha
  rw [frequencyQuery_eq] at hw
  obtain ⟨hlength, hstop, -⟩ :=
    Log.bounds_of_mem_windows (show 0 < windowSeconds by decide) hw
  refine ⟨?_, hstop⟩
  show w.start.nanos ≤ w.stop.nanos
  rw [hlength]
  exact Int.le_add_of_nonneg_right (show 0 ≤ windowLength by decide)

/-- Active windows are active windows still when there are more rows and the threshold is no
higher. -/
theorem coversMore_frequency (now : Instant) (hmore : log.records.Subperm more.records)
    (h : Tolerates r.tuning tuning) : CoversMore .frequency now log r more (retuned r tuning) := by
  refine ⟨_, _, log.outcome_frequency now r, more.outcome_frequency now (retuned r tuning),
    fun t ht => ?_⟩
  refine Activity.covered_keepStarts_ofStretches h.gap_le h.minDuration_le ?_ ?_ ?_ ht
  · intro a ha
    refine ⟨(bounds_of_mem_activeWindows ha).1, ?_⟩
    obtain ⟨w, hw, rfl⟩ := List.mem_map.1 ha
    obtain ⟨v, hv, hrange, -⟩ := Log.exists_mem_windows_of_subperm hmore h.threshold_le hw
    exact ⟨v.range, List.mem_map_of_mem hv, hrange ▸ Range.Within.refl _⟩
  · exact fun a ha => (bounds_of_mem_activeWindows ha).2
  · exact fun b hb => (bounds_of_mem_activeWindows (r := retuned r tuning) hb).2

/-- An active minute starts before the end of the asked range and stops later than it starts. -/
theorem bounds_of_mem_activeMinutes {a : Range} (ha : a ∈ activeMinutes log r) :
    a.start ≤ a.stop ∧ a.start < r.asked.stop := by
  obtain ⟨hslot, hstop⟩ := mem_of_mem_activeSlots ha
  obtain ⟨-, -, hlt⟩ := (Instant.mem_every (by decide)).1 hslot
  refine ⟨?_, hlt⟩
  rw [hstop, Instant.le_iff, Instant.nanos_add]
  exact Int.le_add_of_nonneg_right (by decide)

/-- Active minutes decide what is covered. -/
theorem coversMore_changePoint (now : Instant) (h : Tolerates r.tuning tuning)
    (hsubset : activeMinutes log r ⊆ activeMinutes more (retuned r tuning)) :
    CoversMore .changePoint now log r more (retuned r tuning) := by
  refine ⟨_, _, log.outcome_changePoint now r, more.outcome_changePoint now (retuned r tuning),
    fun t ht => ?_⟩
  refine Activity.covered_keepStarts_ofStretches h.gap_le h.minDuration_le ?_ ?_ ?_ ht
  · intro a ha
    exact ⟨(bounds_of_mem_activeMinutes ha).1, a, hsubset ha, Range.Within.refl a⟩
  · exact fun a ha => (bounds_of_mem_activeMinutes ha).2
  · exact fun b hb => (bounds_of_mem_activeMinutes (r := retuned r tuning) hb).2

/-! ## More rows -/

/-- With more rows no slot has a smaller count. -/
theorem countAt_windows_le (hmore : log.records.Subperm more.records) (slot : Instant) :
    countAt (log.windows r.token (changePointQuery r)) slot ≤
      countAt (more.windows r.token (changePointQuery r)) slot := by
  by_cases hwindow : ∃ w ∈ log.windows r.token (changePointQuery r), w.start = slot
  · obtain ⟨w, hw, rfl⟩ := hwindow
    obtain ⟨v, hv, hrange, hcount⟩ : ∃ v ∈ more.windows r.token (changePointQuery r),
        v.range = w.range ∧ w.signalCount ≤ v.signalCount := by
      rw [changePointQuery_eq] at hw ⊢
      exact Log.exists_mem_windows_of_subperm hmore (Nat.le_refl 1) hw
    have hstart : v.start = w.start := congrArg Range.start hrange
    rw [countAt_eq_of_mem (log.pairwise_windows _ _) hw, ← hstart,
      countAt_eq_of_mem (more.pairwise_windows _ _) hv]
    exact hcount
  · rw [countAt_eq_zero fun w hw heq => hwindow ⟨w, hw, heq⟩]
    exact Nat.zero_le _

/-- More rows leave every active minute active. -/
theorem activeMinutes_subset_of_subperm (hmore : log.records.Subperm more.records)
    (hfew : more.size < Number.twoTo 50) : activeMinutes log r ⊆ activeMinutes more r :=
  activeSlots_subset (pairwise_slots r) (log.pairwise_windows _ _) (more.pairwise_windows _ _)
    (countAt_windows_le hmore) (fits_minuteCounts hfew)

/-- More rows never take covered time away, in whatever order they arrive. -/
theorem coversMore_of_subperm (now : Instant) (r : Request)
    (hmore : log.records.Subperm more.records) :
    CoversMore .frequency now log r more r ∧
      (more.size < Number.twoTo 50 → CoversMore .changePoint now log r more r) := by
  constructor
  · exact coversMore_frequency now hmore (Tolerates.refl _)
  · intro hfew
    exact coversMore_changePoint now (Tolerates.refl _) (activeMinutes_subset_of_subperm hmore hfew)

/-- Four minutes with a row every five seconds. -/
def driveLog : Log :=
  ⟨(List.range 48).map fun (i : Nat) => ⟨42, "speed", .ofSeconds (5 * (i : Int)), 30.0⟩⟩

/-- The trip that these rows make, still in progress at the end of the ten minutes. -/
def drive : Segment := ⟨.ofSeconds 0, none, 600, true, false⟩

/-- The active windows of these rows are the four minutes. -/
def driveMinutes : List Range :=
  (List.range 4).map fun (i : Nat) =>
    ⟨.ofSeconds (60 * (i : Int)), .ofSeconds (60 * (i : Int) + 60)⟩

theorem windows_driveLog :
    (driveLog.windows firstMinutes.token (frequencyQuery firstMinutes)).map Window.range =
      driveMinutes := by
  have hsorted : driveLog.bucketed firstMinutes.token (frequencyQuery firstMinutes) =
      driveLog.records.filter (Log.counts firstMinutes.token (frequencyQuery firstMinutes)) :=
    Log.bucketed_of_pairwise (by decide +kernel) firstMinutes.token (by decide)
  show ((Log.gather _ (driveLog.bucketed _ _)).filterMap _).map _ = _
  rw [hsorted]
  decide +kernel

theorem merge_driveMinutes :
    Range.merge (gap firstMinutes.tuning) driveMinutes = [⟨.ofSeconds 0, .ofSeconds 240⟩] := by
  have hsorted : driveMinutes.mergeSort Range.notAfter = driveMinutes :=
    Range.mergeSort_eq_self (by decide +kernel)
  rw [Range.merge, Range.mergeWith, hsorted]
  decide +kernel

theorem outcome_driveLog :
    (Mechanism.frequency.detect driveLog.source (.ofSeconds 600) firstMinutes).outcome =
      .answer [drive] := by
  rw [Log.outcome_frequency, windows_driveLog, segmentsOf, Activity.ofStretches,
    merge_driveMinutes]
  exact congrArg Outcome.answer (by decide +kernel)

/-- The same rows behind one more. -/
def driveLogMore : Log := ⟨⟨42, "speed", .ofSeconds 300, 0.0⟩ :: driveLog.records⟩

theorem coversMore_driveLogMore :
    driveLog.records.Subperm driveLogMore.records ∧ driveLogMore.size < Number.twoTo 50 ∧
      (Mechanism.frequency.detect driveLog.source (.ofSeconds 600) firstMinutes).outcome =
        .answer [drive] ∧
      CoversMore .frequency (.ofSeconds 600) driveLog firstMinutes driveLogMore firstMinutes ∧
      CoversMore .changePoint (.ofSeconds 600) driveLog firstMinutes driveLogMore firstMinutes := by
  have hmore : driveLog.records.Subperm driveLogMore.records :=
    (List.sublist_cons_self _ _).subperm
  have hfew : driveLogMore.size < Number.twoTo 50 := by decide
  obtain ⟨hfrequency, hchangePoint⟩ := coversMore_of_subperm (.ofSeconds 600) firstMinutes hmore
  exact ⟨hmore, hfew, outcome_driveLog, hfrequency, hchangePoint hfew⟩

/-! ## More tolerant tunables -/

/-- With a wider gap the minutes are the same, only their numbers begin earlier. -/
theorem exists_lookbackSecond_eq (h : Tolerates r.tuning tuning) :
    ∃ d : Nat, lookbackSecond r = lookbackSecond (retuned r tuning) + 60 * d := by
  have hle : (r.asked.start - gap tuning).nanos ≤ (r.asked.start - gap r.tuning).nanos :=
    Int.sub_le_sub_left h.gap_le _
  refine ⟨((lookbackSecond r - lookbackSecond (retuned r tuning)) / 60).toNat, ?_⟩
  -- both are whole minutes, so their difference is one
  simp only [lookbackSecond, retuned, Instant.second]
  omega

theorem minute_add {d : Nat} (hd : lookbackSecond r = lookbackSecond (retuned r tuning) + 60 * d)
    (k : Nat) : minute (retuned r tuning) (k + d) = minute r k := by
  simp only [minute, hd, Range.mk.injEq, Instant.ofSeconds_inj]
  omega

/-- A wider gap leaves every active minute active, although the score starts earlier. -/
theorem activeMinutes_subset_of_tolerates (h : Tolerates r.tuning tuning)
    (hlooks : LooksInCalendar r) (hlooks' : LooksInCalendar (retuned r tuning))
    (hfew : log.size < Number.twoTo 50) :
    activeMinutes log r ⊆ activeMinutes log (retuned r tuning) := by
  obtain ⟨d, hd⟩ := exists_lookbackSecond_eq h
  intro a ha
  obtain ⟨k, rfl, hstop, j, hjk, hbusy⟩ := (mem_activeMinutes_iff hlooks hfew).1 ha
  refine (mem_activeMinutes_iff hlooks' hfew).2
    ⟨k + d, (minute_add hd k).symm, hstop, j + d, ?_, ?_⟩
  · omega
  · -- the same stretch of minutes, by its new numbers
    have harrivals :
        arrivalsFrom log (retuned r tuning) (j + d) (k + d) = arrivalsFrom log r j k := by
      rw [arrivalsFrom, minute_add hd, minute_add hd]
      rfl
    rw [harrivals]
    omega

/-- More tolerant tunables never take covered time away. -/
theorem coversMore_of_tolerates (now : Instant) (log : Log) (h : Tolerates r.tuning tuning) :
    CoversMore .frequency now log r log (retuned r tuning) ∧
      (LooksInCalendar r → LooksInCalendar (retuned r tuning) → log.size < Number.twoTo 50 →
        CoversMore .changePoint now log r log (retuned r tuning)) := by
  constructor
  · exact coversMore_frequency now (List.Subperm.refl _) h
  · intro hlooks hlooks' hfew
    exact coversMore_changePoint now h (activeMinutes_subset_of_tolerates h hlooks hlooks' hfew)

/-- Gaps of a quarter of an hour, trips of a minute, windows of six rows. -/
def lenient : Tuning :=
  { Tuning.default with
    maxGapSeconds := some 900, minSegmentSeconds := some 60, signalCountThreshold := some 6 }

theorem coversMore_lenient :
    Tolerates firstMinutes.tuning lenient ∧ LooksInCalendar firstMinutes ∧
      LooksInCalendar (retuned firstMinutes lenient) ∧ driveLog.size < Number.twoTo 50 ∧
      (Mechanism.frequency.detect driveLog.source (.ofSeconds 600) firstMinutes).outcome =
        .answer [drive] ∧
      CoversMore .frequency (.ofSeconds 600) driveLog firstMinutes driveLog
        (retuned firstMinutes lenient) ∧
      CoversMore .changePoint (.ofSeconds 600) driveLog firstMinutes driveLog
        (retuned firstMinutes lenient) := by
  have htolerates : Tolerates firstMinutes.tuning lenient := ⟨by decide, by decide, by decide⟩
  have hlooks : LooksInCalendar firstMinutes := ⟨by decide, by decide⟩
  have hlooks' : LooksInCalendar (retuned firstMinutes lenient) := ⟨by decide, by decide⟩
  have hfew : driveLog.size < Number.twoTo 50 := by decide
  obtain ⟨hfrequency, hchangePoint⟩ :=
    coversMore_of_tolerates (.ofSeconds 600) driveLog htolerates
  exact ⟨htolerates, hlooks, hlooks', hfew, outcome_driveLog, hfrequency,
    hchangePoint hlooks hlooks' hfew⟩

end Arrivals

end Telematics
