import Telematics.Proofs.CoveredTime
import Telematics.Proofs.DetectedSegments
import Telematics.Proofs.LaterRanges

/-!
# Starts that a later range keeps

The mechanism that scores the rate of arrivals looks back by the gap tolerance, and its score starts
there from zero. So a request for a range that begins later may not find the start of a trip that
the request for the longer range finds. Here the two answers are compared. The later request finds
no trip that begins before its own lookback. But if the score of the longer range is down at zero at
some minute between that lookback and the start of a trip (`Settled`), then from that minute on both
requests see the same active minutes, and the later one reports the same trip (`keeps_start`).

A trip under way for longer than the gap tolerance loses its start
(`not_keepsEveryStart_longDrive`).
-/

set_option autoImplicit false

namespace Telematics

/-! ## One rule for each run -/

namespace Activity

variable {asked : Range} {now : Instant} {gap minDuration : Span} {active : List Range}

/-- The segment of a run from its own start: in progress if the run trails, else finished. -/
def runSegment? (asked : Range) (now : Instant) (gap minDuration : Span) (run : Range) :
    Option Segment :=
  if minDuration ≤ run.length ∧ asked.start < run.stop then
    (if Range.isTrailing run.stop asked.stop now gap then Segment.cappedOngoing asked run
      else Segment.capped asked run).filter fun s => decide (minDuration ≤ s.duration)
  else none

/-- Of runs that are a gap apart the last one is not an inner one. -/
theorem notMem_dropLast_of_getLast? {runs : List Range} {c : Range}
    (hapart : runs.Pairwise fun a b => a.Apart gap b) (hforward : c.start ≤ c.stop)
    (hlast : runs.getLast? = some c) : c ∉ runs.dropLast := by
  intro hinner
  rw [← List.dropLast_append_getLast? c hlast, List.pairwise_append] at hapart
  have hself : c.Apart gap c := hapart.2.2 c hinner c List.mem_cons_self
  exact absurd (Int.lt_of_lt_of_le hself.1 hforward) (Int.lt_irrefl _)

/-- A rule of its own for the last run is one rule for every run, because only the last run can
trail: runs are a gap apart, and all begin before the end of the asked range. -/
theorem keepStarts_ofStretches_eq_filterMap
    (hactive : ∀ a ∈ active, a.start ≤ a.stop ∧ a.start < asked.stop) :
    (ofStretches asked now gap minDuration active).keepStarts asked minDuration =
      (Range.merge gap active).filterMap (runSegment? asked now gap minDuration) := by
  have hapart : (relevant asked minDuration (Range.merge gap active)).Pairwise
      fun a b => a.Apart gap b := pairwise_relevant (Range.pairwise_merge_apart gap active)
  have hforward : ∀ c ∈ Range.merge gap active, c.start ≤ c.stop :=
    Range.start_le_stop_of_mem_mergeWith fun a ha => (hactive a ha).1
  have hrule : Segment.keepStarts asked (lastTrails asked now gap (relevant asked minDuration
        (Range.merge gap active))) (relevant asked minDuration (Range.merge gap active)) =
      (relevant asked minDuration (Range.merge gap active)).filterMap fun run =>
        if Range.isTrailing run.stop asked.stop now gap then Segment.cappedOngoing asked run
        else Segment.capped asked run := by
    rw [← Segment.ofRanges_self, Segment.keepStarts, Segment.ofRanges_eq, Segment.ofRanges_eq]
    congr 1
    · apply List.filterMap_congr
      intro c hc
      rw [if_neg]
      intro htrails
      have hmem := List.dropLast_subset _ hc
      rw [Range.isTrailing, Bool.and_eq_true, decide_eq_true_eq] at htrails
      have hlast := getLast?_relevant_of_trailing (fun a ha => (hactive a ha).2) hmem htrails.1
      exact notMem_dropLast_of_getLast? hapart (hforward c (mem_relevant_iff.1 hmem).1) hlast hc
    · cases hlast : (relevant asked minDuration (Range.merge gap active)).getLast? with
      | none => rfl
      | some c =>
          rw [lastTrails, hlast, Option.any_some, Option.bind_some, Option.bind_some]
          cases Range.isTrailing c.stop asked.stop now gap <;> rfl
  rw [keepStarts, ofStretches, hrule, Segment.atLeast, List.filter_filterMap, relevant,
    Range.atLeast, List.filter_filter, List.filterMap_filter]
  apply List.filterMap_congr
  intro c _
  simp only [runSegment?, Bool.and_eq_true, decide_eq_true_eq, and_comm]

/-- The segment of a run starts with it, and is finished when the run stops or when the asked range
ends; only a run that stops at most the gap before that end is in progress. -/
theorem ends_of_runSegment? {run : Range} {s : Segment}
    (h : runSegment? asked now gap minDuration run = some s) :
    s.start = run.start ∧ (∀ stop, s.stop = some stop → stop ≤ run.stop) ∧
      (s.isOngoing = true → asked.stop - run.stop ≤ gap) := by
  rw [runSegment?, Option.ite_none_right_eq_some] at h
  obtain ⟨hs, -⟩ := Option.filter_eq_some_iff.1 h.2
  cases htrails : Range.isTrailing run.stop asked.stop now gap with
  | true =>
      rw [htrails, if_pos rfl, Segment.cappedOngoing] at hs
      obtain rfl := Option.some.inj hs
      rw [Range.isTrailing, Bool.and_eq_true, decide_eq_true_eq] at htrails
      exact ⟨rfl, by simp [Segment.ongoing], fun _ => htrails.1⟩
  | false =>
      rw [htrails, if_neg Bool.false_ne_true] at hs
      obtain ⟨-, rfl⟩ := Segment.closed?_eq_some hs
      refine ⟨rfl, ?_, by simp⟩
      rintro stop ⟨⟩
      exact Int.min_le_left _ _

/-- A run that is not over when a later range begins gives the same segment there, told from that
start. -/
theorem runSegment?_later {first later stop : Instant} {run : Range} {s : Segment}
    (h : runSegment? ⟨first, stop⟩ now gap minDuration run = some s) (hover : later < run.stop) :
    runSegment? ⟨later, stop⟩ now gap minDuration run = some (s.toldFrom later) := by
  rw [runSegment?, Option.ite_none_right_eq_some] at h
  obtain ⟨⟨hlong, -⟩, hs⟩ := h
  obtain ⟨hs, hduration⟩ := Option.filter_eq_some_iff.1 hs
  rw [runSegment?, if_pos ⟨hlong, hover⟩]
  apply Option.filter_eq_some_iff.2
  refine ⟨?_, hduration⟩
  cases htrails : Range.isTrailing run.stop stop now gap with
  | true =>
      rw [htrails, if_pos rfl] at hs
      obtain rfl := Option.some.inj hs
      rfl
  | false =>
      rw [htrails, if_neg Bool.false_ne_true] at hs
      obtain ⟨hlt, rfl⟩ := Segment.closed?_eq_some hs
      exact if_pos hlt

end Activity

/-! ## Merging some of the ranges -/

namespace Range

variable {gap : Span} {ranges others : List Range} {m : Range}

/-- A merged range is still one when ranges that begin before it are left out. -/
theorem mem_merge_of_subset (hsubset : others ⊆ ranges)
    (hforward : ∀ r ∈ ranges, r.start ≤ r.stop) (hm : m ∈ merge gap ranges)
    (hkept : ∀ r ∈ ranges, m.start ≤ r.start → r ∈ others) : m ∈ merge gap others := by
  obtain ⟨members, hjoined, hpart⟩ := exists_joined_of_mem_mergeWith hm
  have hsorted : members.Pairwise fun a b => a.start ≤ b.start :=
    (pairwise_start_mergeSort ranges).sublist hpart.sublist
  -- all ranges that it has grown from are kept, so it lies within one that the others grow to
  have hmembers : ∀ r ∈ members, r.start ≤ r.stop ∧ ∃ q ∈ merge gap others, r.Within q := by
    intro r hr
    have hmem : r ∈ ranges := List.mem_mergeSort.1 (hpart.subset hr)
    exact ⟨hforward r hmem,
      exists_within_mergeWith (hkept r hmem (hjoined.within hsorted r hr).1)⟩
  obtain ⟨q, hq, hmq⟩ :=
    hjoined.exists_within (Int.le_refl gap) (pairwise_merge_apart gap others) hmembers
  have hothers : ∀ r ∈ others, r.start ≤ r.stop ∧ ∃ p ∈ ranges, r.Within p :=
    fun r hr => ⟨hforward r (hsubset hr), r, hsubset hr, Within.refl r⟩
  obtain ⟨p, hp, hqp⟩ := exists_within_merge (Int.le_refl gap) hothers hq
  have hmp : m.Within p := hmq.trans hqp
  have hmforward : m.start ≤ m.stop := start_le_stop_of_mem_mergeWith hforward m hm
  have heq : m = p :=
    eq_of_within (pairwise_merge_apart gap ranges) hmforward hm hp (Within.refl m) hmp
  rw [← heq] at hqp
  rw [hmq.antisymm hqp]
  exact hq

end Range

/-! ## Active minutes of a later range -/

namespace Arrivals

variable {log : Log} {r : Request} {later : Instant}

/-- The score is down at zero when a minute begins: no stretch of minutes before it has more than
three rows for two minutes. -/
def Settled (log : Log) (r : Request) (k : Nat) : Prop :=
  ∀ j < k, 2 * log.arrivals r.token ⟨(minute r j).start, (minute r k).start⟩ ≤ 3 * (k - j)

instance (log : Log) (r : Request) (k : Nat) : Decidable (Settled log r k) :=
  inferInstanceAs (Decidable (∀ j < k, _ ≤ _))

/-- A range that begins later has the same minutes, only their numbers begin later. -/
theorem exists_minute_laterRange (h : r.asked.start ≤ later) :
    ∃ d : Nat, ∀ k, minute (r.laterRange later) k = minute r (k + d) := by
  have hle : (r.asked.start - gap r.tuning).nanos ≤ (later - gap r.tuning).nanos :=
    Int.sub_le_sub_right h _
  refine ⟨((lookbackSecond (r.laterRange later) - lookbackSecond r) / 60).toNat, fun k => ?_⟩
  simp only [minute, lookbackSecond, Request.laterRange, Instant.second, Range.mk.injEq,
    Instant.ofSeconds_inj]
  omega

theorem arrivalsFrom_laterRange {d : Nat}
    (hd : ∀ k, minute (r.laterRange later) k = minute r (k + d)) (log : Log) (j k : Nat) :
    arrivalsFrom log (r.laterRange later) j k = arrivalsFrom log r (j + d) (k + d) := by
  rw [arrivalsFrom, hd, hd]
  rfl

/-- The score of a later range is no higher, so its active minutes are active in the longer range.
-/
theorem activeMinutes_laterRange_subset (h : r.asked.start ≤ later) (hlooks : LooksInCalendar r)
    (hlooks' : LooksInCalendar (r.laterRange later)) (hfew : log.size < Number.twoTo 50) :
    activeMinutes log (r.laterRange later) ⊆ activeMinutes log r := by
  obtain ⟨d, hd⟩ := exists_minute_laterRange h
  intro a ha
  obtain ⟨k, rfl, hstop, j, hjk, hbusy⟩ := (mem_activeMinutes_iff hlooks' hfew).1 ha
  refine (mem_activeMinutes_iff hlooks hfew).2 ⟨k + d, hd k, hstop, j + d, by omega, ?_⟩
  rw [← arrivalsFrom_laterRange hd]
  omega

/-- What arrives in a stretch of minutes is what arrives before one of them and from it on. -/
theorem arrivalsFrom_eq_add (log : Log) {j i k : Nat} (hji : j ≤ i) (hik : i ≤ k)
    (hk : (minute r k).start < r.asked.stop) :
    arrivalsFrom log r j k =
      log.arrivals r.token ⟨(minute r j).start, (minute r i).start⟩ + arrivalsFrom log r i k := by
  rw [arrivalsFrom, arrivalsFrom]
  symm
  apply log.arrivals_add
  · simp only [minute, Instant.le_iff, Instant.nanos_ofSeconds]
    omega
  · simp only [minute, Instant.le_iff, Instant.lt_iff, Instant.nanos_min,
      Instant.nanos_ofSeconds] at hk ⊢
    omega

/-- From a minute on at which the score is down at zero, active minutes are active in a later range
that looks back that far. -/
theorem mem_activeMinutes_laterRange (h : r.asked.start ≤ later) (hlooks : LooksInCalendar r)
    (hlooks' : LooksInCalendar (r.laterRange later)) (hfew : log.size < Number.twoTo 50) {k : Nat}
    (hsettled : Settled log r k)
    (hlook : lookbackStart (r.laterRange later) ≤ (minute r k).start) {a : Range}
    (ha : a ∈ activeMinutes log r) (hstart : (minute r k).start ≤ a.start) :
    a ∈ activeMinutes log (r.laterRange later) := by
  obtain ⟨d, hd⟩ := exists_minute_laterRange h
  have hdk : d ≤ k := by
    have hfirst : lookbackStart (r.laterRange later) = (minute (r.laterRange later) 0).start := by
      rw [lookbackStart, windowSeconds, Instant.alignDown_minute hlooks'.lookback]
      simp only [minute, lookbackSecond]
      congr 1
      omega
    rw [hfirst, hd] at hlook
    simp only [minute, Instant.le_iff, Instant.nanos_ofSeconds] at hlook
    omega
  obtain ⟨n, rfl, hstop, j, hjn, hbusy⟩ := (mem_activeMinutes_iff hlooks hfew).1 ha
  have hkn : k ≤ n := by
    simp only [minute, Instant.le_iff, Instant.nanos_ofSeconds] at hstart
    omega
  have hn : minute r n = minute (r.laterRange later) (n - d) := by
    rw [hd, Nat.sub_add_cancel (Nat.le_trans hdk hkn)]
  -- what the stretch gains before the score is down does not help
  obtain ⟨i, hki, hin, hgain⟩ : ∃ i, k ≤ i ∧ i ≤ n ∧
      10 + 3 * (n - i + 1) < 2 * arrivalsFrom log r i n := by
    rcases Nat.lt_or_ge j k with hjk | hkj
    · refine ⟨k, Nat.le_refl k, hkn, ?_⟩
      have hquiet := hsettled j hjk
      rw [arrivalsFrom_eq_add log (Nat.le_of_lt hjk) hkn hstop] at hbusy
      omega
    · exact ⟨j, hkj, hjn, hbusy⟩
  refine (mem_activeMinutes_iff hlooks' hfew).2 ⟨n - d, hn, hstop, i - d, by omega, ?_⟩
  rw [arrivalsFrom_laterRange hd, Nat.sub_add_cancel (Nat.le_trans hdk hki),
    Nat.sub_add_cancel (Nat.le_trans hdk hkn)]
  omega

/-! ## Kept starts -/

/-- The answer follows one rule for each run of active minutes. -/
theorem outcome_eq_filterMap (log : Log) (now : Instant) (r : Request) :
    (Mechanism.changePoint.detect log.source now r).outcome =
      .answer ((Range.merge (gap r.tuning) (activeMinutes log r)).filterMap
        (Activity.runSegment? r.asked now (gap r.tuning) (minDuration r.tuning))) := by
  rw [Log.outcome_changePoint]
  exact congrArg Outcome.answer (Activity.keepStarts_ofStretches_eq_filterMap
    fun _ ha => bounds_of_mem_activeMinutes ha)

/-- No trip begins before the lookback. -/
theorem lookbackStart_le_of_mem {now : Instant} {s : Segment}
    (hs : s ∈ (Range.merge (gap r.tuning) (activeMinutes log r)).filterMap
      (Activity.runSegment? r.asked now (gap r.tuning) (minDuration r.tuning))) :
    lookbackStart r ≤ s.start := by
  obtain ⟨run, hrun, hs⟩ := List.mem_filterMap.1 hs
  rw [(Activity.ends_of_runSegment? hs).1]
  apply Range.forall_mem_mergeWith
    (P := fun b => lookbackStart r ≤ b.start) (fun _ _ ha _ => ha) ?_ run hrun
  intro a ha
  obtain ⟨i, hi, -⟩ := (Instant.mem_every (by decide)).1 (mem_of_mem_activeSlots ha).1
  rw [hi]
  exact Int.le_add_of_nonneg_right (Int.mul_nonneg (by decide) (Int.natCast_nonneg i))

/-- The score comes down to zero between the lookback of a later range and the start of a trip. -/
def SettlesBefore (log : Log) (r : Request) (later : Instant) (s : Segment) : Prop :=
  ∃ k, Settled log r k ∧ lookbackStart (r.laterRange later) ≤ (minute r k).start ∧
    (minute r k).start ≤ s.start

/-- What the answer for a later range owes to the answer for the longer one. -/
structure KeepsStarts (log : Log) (r : Request) (later : Instant) (found found' : List Segment) :
    Prop where
  /-- A trip that goes on after the later start is reported with its own start, if the score comes
  down to zero before it; of a trip in progress some minute must be active after the later start. -/
  kept : ∀ s ∈ found, s.endsAfter later = true →
    (s.isOngoing = true → ∃ a ∈ activeMinutes log r, later < a.stop) →
      SettlesBefore log r later s → s.toldFrom later ∈ found'
  /-- No trip begins before the lookback of the later range. -/
  lookback_le : ∀ s ∈ found', lookbackStart (r.laterRange later) ≤ s.start

/-- A run whose segment goes on after an instant is not over by then. -/
theorem lt_stop_of_endsAfter {run : Range} {now : Instant} {s : Segment}
    (hrun : run ∈ Range.merge (gap r.tuning) (activeMinutes log r))
    (hs : Activity.runSegment? r.asked now (gap r.tuning) (minDuration r.tuning) run = some s)
    (hafter : s.endsAfter later = true)
    (hactive : s.isOngoing = true → ∃ a ∈ activeMinutes log r, later < a.stop) :
    later < run.stop := by
  obtain ⟨-, hstop, hongoing⟩ := Activity.ends_of_runSegment? hs
  rw [Segment.endsAfter, Bool.or_eq_true, Option.any_eq_true] at hafter
  rcases hafter with hafter | ⟨stop, hsome, hlt⟩
  · obtain ⟨a, ha, hlater⟩ := hactive hafter
    obtain ⟨q, hq, haq⟩ := Range.exists_within_mergeWith ha
    have hover : later < q.stop := Int.lt_of_lt_of_le hlater haq.2
    rcases Range.eq_or_apart (Range.pairwise_merge_apart (gap r.tuning) (activeMinutes log r))
      hrun hq with rfl | happart | happart
    · exact hover
    · have hqstart : q.start < r.asked.stop :=
        Activity.start_lt_of_mem_merge (fun b hb => (bounds_of_mem_activeMinutes hb).2) hq
      have htrails := hongoing hafter
      rw [Instant.sub_le_iff] at htrails
      exact absurd (Int.lt_trans happart.2 hqstart) (Int.not_lt.2 htrails)
    · have hforward : run.start ≤ run.stop := Range.start_le_stop_of_mem_mergeWith
        (fun b hb => (bounds_of_mem_activeMinutes hb).1) run hrun
      exact Int.lt_trans hover (Int.lt_of_lt_of_le happart.1 hforward)
  · rw [decide_eq_true_eq] at hlt
    exact Int.lt_of_lt_of_le hlt (hstop stop hsome)

/-- A request for a range that begins later keeps the starts of trips before which the score comes
down to zero after its lookback, and finds no start before that lookback. -/
theorem keeps_start {log : Log} {r : Request} {later : Instant} (h : r.asked.start ≤ later)
    (hlooks : LooksInCalendar r) (hlooks' : LooksInCalendar (r.laterRange later))
    (hfew : log.size < Number.twoTo 50) (now : Instant) :
    ∃ found found', (Mechanism.changePoint.detect log.source now r).outcome = .answer found ∧
      (Mechanism.changePoint.detect log.source now (r.laterRange later)).outcome =
        .answer found' ∧
      KeepsStarts log r later found found' := by
  refine ⟨_, _, outcome_eq_filterMap log now r, outcome_eq_filterMap log now _, ?_, ?_⟩
  · intro s hs hafter hactive ⟨k, hsettled, hlook, hstart⟩
    obtain ⟨run, hrun, hs⟩ := List.mem_filterMap.1 hs
    have hover := lt_stop_of_endsAfter hrun hs hafter hactive
    -- the run has grown from minutes that are active in the later range as well
    have hrun' : run ∈ Range.merge (gap r.tuning) (activeMinutes log (r.laterRange later)) := by
      apply Range.mem_merge_of_subset
        (activeMinutes_laterRange_subset h hlooks hlooks' hfew)
        (fun a ha => (bounds_of_mem_activeMinutes ha).1) hrun
      intro a ha hle
      apply mem_activeMinutes_laterRange h hlooks hlooks' hfew hsettled hlook ha
      rw [(Activity.ends_of_runSegment? hs).1] at hstart
      exact Instant.le_trans hstart hle
    exact List.mem_filterMap.2 ⟨run, hrun', Activity.runSegment?_later hs hover⟩
  · exact fun s hs => lookbackStart_le_of_mem hs

/-- Twenty minutes with a row every five seconds. -/
def longDriveLog : Log :=
  ⟨(List.range 240).map fun (i : Nat) => ⟨42, "speed", .ofSeconds (5 * (i : Int)), 30.0⟩⟩

/-- A request for the first forty minutes. -/
def fortyMinutes : Request := ⟨42, ⟨.ofSeconds 0, .ofSeconds 2400⟩, Tuning.default⟩

/-- The trip that these rows make: the score is not down again after forty minutes. -/
def longDrive : Segment := ⟨.ofSeconds 0, some (.ofSeconds 2400), 2400, false, false⟩

/-- The first minutes of the epoch with a dozen rows each. -/
def dozens (minutes : Nat) : List Window :=
  (List.range minutes).map fun (i : Nat) =>
    ⟨.ofSeconds (60 * (i : Int)), .ofSeconds (60 * (i : Int) + 60), 12, 1⟩

theorem outcome_longDriveLog :
    (Mechanism.changePoint.detect longDriveLog.source (.ofSeconds 100000)
      fortyMinutes).outcome = .answer [longDrive] := by
  have hordered : longDriveLog.records.Pairwise fun a b => a.time ≤ b.time := by
    refine List.pairwise_map.2 (List.pairwise_lt_range.imp fun {i j} hlt => ?_)
    simp only [Instant.le_iff, Instant.nanos_ofSeconds]
    omega
  have hsorted : longDriveLog.bucketed 42 (changePointQuery fortyMinutes) =
      longDriveLog.records.filter (Log.counts 42 (changePointQuery fortyMinutes)) :=
    Log.bucketed_of_pairwise hordered 42 (by decide)
  have hwindows : longDriveLog.windows fortyMinutes.token (changePointQuery fortyMinutes) =
      dozens 20 := by
    show (Log.gather _ (longDriveLog.bucketed 42 _)).filterMap _ = _
    rw [hsorted]
    decide +kernel
  have hactive : activeSlots (slots fortyMinutes) (dozens 20) =
      (dozens 40).map Window.range := by
    decide +kernel
  have hmerge : Range.merge (gap fortyMinutes.tuning) ((dozens 40).map Window.range) =
      [⟨.ofSeconds 0, .ofSeconds 2400⟩] := by
    have hsort : ((dozens 40).map Window.range).mergeSort Range.notAfter =
        (dozens 40).map Window.range := Range.mergeSort_eq_self (by decide +kernel)
    rw [Range.merge, Range.mergeWith, hsort]
    decide +kernel
  rw [Log.outcome_changePoint, hwindows, segmentsOf, Activity.ofStretches, hactive, hmerge]
  exact congrArg Outcome.answer (by decide +kernel)

/-- The range may begin in the trip five minutes after it began, which is less than the gap. -/
theorem keeps_start_longDrive :
    LooksInCalendar fortyMinutes ∧ LooksInCalendar (fortyMinutes.laterRange (.ofSeconds 300)) ∧
      longDriveLog.size < Number.twoTo 50 ∧
      ∃ found', (Mechanism.changePoint.detect longDriveLog.source (.ofSeconds 100000)
          (fortyMinutes.laterRange (.ofSeconds 300))).outcome = .answer found' ∧
        KeepsStarts longDriveLog fortyMinutes (.ofSeconds 300) [longDrive] found' ∧
        longDrive.toldFrom (.ofSeconds 300) ∈ found' := by
  have hlooks : LooksInCalendar fortyMinutes := ⟨by decide, by decide⟩
  have hlooks' : LooksInCalendar (fortyMinutes.laterRange (.ofSeconds 300)) :=
    ⟨by decide, by decide⟩
  have hfew : longDriveLog.size < Number.twoTo 50 := by decide +kernel
  obtain ⟨found, found', hanswer, hanswer', hkeeps⟩ :=
    keeps_start (by decide) hlooks hlooks' hfew (.ofSeconds 100000)
  rw [outcome_longDriveLog] at hanswer
  obtain rfl := Outcome.answer.inj hanswer
  refine ⟨hlooks, hlooks', hfew, found', hanswer', hkeeps, ?_⟩
  have hsettles : SettlesBefore longDriveLog fortyMinutes (.ofSeconds 300) longDrive :=
    ⟨10, by decide +kernel, by decide, by decide⟩
  exact hkeeps.kept longDrive List.mem_cons_self rfl (fun h => absurd h (by decide)) hsettles

/-- Every trip that begins by the later start and goes on after it is found with its own start from
there as well. -/
def KeepsEveryStart (log : Log) (now : Instant) (r : Request) (later : Instant) : Prop :=
  ∀ found found', (Mechanism.changePoint.detect log.source now r).outcome = .answer found →
    (Mechanism.changePoint.detect log.source now (r.laterRange later)).outcome =
      .answer found' →
    ∀ s ∈ found, s.start ≤ later → s.endsAfter later = true → ∃ s' ∈ found', s'.start = s.start

/-- Fifteen minutes after the trip began its start is out of sight. -/
theorem not_keepsEveryStart_longDrive :
    fortyMinutes.rejection (.ofSeconds 100000) = none ∧
      (fortyMinutes.laterRange (.ofSeconds 900)).rejection (.ofSeconds 100000) = none ∧
      ¬ KeepsEveryStart longDriveLog (.ofSeconds 100000) fortyMinutes (.ofSeconds 900) := by
  refine ⟨by decide, by decide, fun hkeeps => ?_⟩
  obtain ⟨s, hs, hstart⟩ := hkeeps _ _ outcome_longDriveLog (outcome_eq_filterMap _ _ _) longDrive
    List.mem_cons_self (by decide) rfl
  have hlook := lookbackStart_le_of_mem hs
  rw [hstart] at hlook
  exact absurd hlook (by decide)

end Arrivals

end Telematics
