import Telematics.Proofs.ActiveMinutes
import Telematics.Proofs.ActivityRuns
import Telematics.Proofs.DetectedSegments
import Telematics.Proofs.GapChains
import Telematics.Proofs.Outcomes
import Telematics.Proofs.ValidRequests
import Telematics.Proofs.WindowPartition

/-!
# Segments of chains of active minutes

Two mechanisms read windows of a minute and grow segments from them: trips from minutes in which
many rows arrived, and idling from minutes in which all engine speeds are those of an idling engine.
A `MinuteSearch` is what they differ in. What they answer is told here without windows, merging and
filters: `MinuteSearch.Active` says which minutes of the epoch are active in a log, chains are these
minutes split at every gap that is too long, and `MinuteSearch.answer` gives the segments of the
chains that count. `told_by_minutes` says that both mechanisms answer exactly this, for every log
whose values are numbers.
-/

set_option autoImplicit false

namespace Telematics

open FloatOrder (IsNumber)

/-- How segments are found from active minutes. -/
structure MinuteSearch where
  /-- The least number of rows of an active minute. -/
  leastCount : Nat
  /-- All rows of an active minute are of this signal and have values in the band; if there is none,
  rows of every signal count. -/
  band : Option ValueBand
  /-- The longest gap in a chain. -/
  gap : Span
  /-- The shortest chain and the shortest segment, in seconds. -/
  shortestSeconds : Int
  /-- Segments are cut where the asked range begins. -/
  cutsStart : Bool

/-- The search of trips from windows in which many rows arrived. -/
def Arrivals.minuteSearch (t : Tuning) : MinuteSearch :=
  ⟨t.countThreshold defaultThreshold, none, gap t,
    t.minSegmentSeconds.getD defaultMinSegment, false⟩

/-- The search of idling from windows of the engine speed. -/
def Idling.minuteSearch (t : Tuning) : MinuteSearch :=
  ⟨t.countThreshold defaultThreshold, some ⟨Signal.engineSpeed, 0.0, ceiling t⟩, gap t,
    t.minSegmentSeconds.getD defaultMinSegment, true⟩

/-- The minute with a number, counted from the epoch. -/
def minuteAt (k : Int) : Range := ⟨.ofSeconds (60 * k), .ofSeconds (60 * k + 60)⟩

theorem minuteAt_eq (k : Int) :
    minuteAt k = ⟨.ofSeconds (60 * k), Instant.ofSeconds (60 * k) + Span.seconds 60⟩ :=
  windowAt_eq 60 k

namespace MinuteSearch

variable (s : MinuteSearch) (log : Log) (now : Instant) (r : Request)

/-! ## Active minutes -/

/-- What is searched: from the whole minute in which the asked range begins to its end. -/
def searched (asked : Range) : Range := ⟨(minuteAt (asked.start.second / 60)).start, asked.stop⟩

/-- A row counts: it is one of the vehicle, in time, and of the right signal. -/
def counts (x : Record) : Bool :=
  x.token == r.token && decide (x.time ∈ searched r.asked) &&
    s.band.all fun band => x.name == band.signal

/-- The rows of a minute that count. -/
def rowsIn (k : Int) : List Record :=
  log.records.filter fun x => s.counts r x && decide (x.time ∈ minuteAt k)

/-- A minute is active: enough rows count in it, and all their values lie in the band. -/
def Active (k : Int) : Prop :=
  s.leastCount ≤ (s.rowsIn log r k).length ∧
    ∀ band ∈ s.band, ∀ x ∈ s.rowsIn log r k, band.above < x.value ∧ x.value ≤ band.upTo

/-! ## Segments of chains -/

/-- The shortest chain and the shortest segment. -/
def shortest : Span := Span.seconds s.shortestSeconds

/-- Where the segment of a chain starts. -/
def startOf (asked chain : Range) : Instant :=
  if s.cutsStart then max chain.start asked.start else chain.start

/-- The segment of a chain, unless it is too short. -/
def segment? (asked : Range) (ongoing : Bool) (chain : Range) : Option Segment :=
  let start := s.startOf asked chain
  let stop := if ongoing then asked.stop else min chain.stop asked.stop
  if s.shortest ≤ stop - start then
    some ⟨start, if ongoing then none else some stop, Segment.durationOf (stop - start), ongoing,
      decide (chain.start < asked.start)⟩
  else none

/-- The chains that count: long enough, and not over when the asked range begins. -/
def kept (asked : Range) (chains : List Range) : List Range :=
  chains.filter fun c => decide (s.shortest ≤ c.length) && decide (asked.start < c.stop)

/-- The last chain is in progress: it is over shortly before the end of the asked range, and that
end is not long past. -/
def goesOn (asked chain : Range) : Bool :=
  decide (asked.stop - chain.stop ≤ s.gap) && decide (now - asked.stop ≤ s.gap)

/-- The segments of chains, in order; only the last chain that counts can be in progress. -/
def answer (asked : Range) (chains : List Range) : List Segment :=
  (s.kept asked chains).dropLast.filterMap (s.segment? asked false) ++
    ((s.kept asked chains).getLast?.bind fun c =>
      s.segment? asked (s.goesOn now asked c) c).toList

/-- An outcome is told by the active minutes: it is the answer that belongs to their chains. -/
def Tells (outcome : Outcome ReadFailure (List Segment)) : Prop :=
  ∃ (minutes : List Range) (chains : List (List Range)),
    (minutes.Pairwise fun a b => a.start < b.start) ∧
    (∀ m, m ∈ minutes ↔ ∃ k, m = minuteAt k ∧ s.Active log r k) ∧
    Range.Chains s.gap minutes chains ∧
    outcome = .answer (s.answer now r.asked (chains.filterMap Range.hull?))

/-! ## Windows are active minutes -/

/-- The question for the windows of a search. -/
def query : WindowQuery :=
  { WindowQuery.all ⟨r.asked.start.alignDown 60, r.asked.stop⟩ 60 with
    leastCount := s.leastCount
    band := s.band }

/-- What the rules of a search make sure of. -/
structure Proper : Prop where
  leastCount_pos : 0 < s.leastCount
  gap_nonneg : 0 ≤ s.gap
  shortest_pos : 0 < s.shortestSeconds
  shortest_le : s.shortestSeconds ≤ Segment.longest
  /-- Finite numbers may lie on both sides of the band. -/
  band_finite : ∀ band ∈ s.band,
    band.above < Log.largestFinite ∧ -Log.largestFinite ≤ band.upTo

variable {s log now r}

/-- The rows of a bucket are those of its minute. -/
theorem bucketRows_perm (hstart : r.asked.start.InCalendar) (k : Int) :
    (log.bucketRows r.token (s.query r) (60 * k)).Perm (s.rowsIn log r k) := by
  have hrows : log.windowRows r.token (s.query r) k = s.rowsIn log r k := by
    have hsearched : (s.query r).within = searched r.asked := by
      rw [query, WindowQuery.all, Instant.alignDown_minute hstart, Int.mul_comm]
      rfl
    apply List.filter_congr
    intro x _
    rw [hsearched, counts, Bool.and_right_comm]
    rfl
  rw [← hrows]
  exact log.bucketRows_perm r.token (show (0 : Int) < 60 by decide) k

/-- The rows of a bucket qualify when there are enough, all with values in the band. -/
theorem qualifies_iff (hs : s.Proper) {group : List Record}
    (hnumbers : ∀ x ∈ group, IsNumber x.value) :
    Log.qualifies (s.query r) group = true ↔ s.leastCount ≤ group.length ∧
      ∀ band ∈ s.band, ∀ x ∈ group, band.above < x.value ∧ x.value ≤ band.upTo := by
  rw [Log.qualifies_iff hnumbers]
  constructor
  · rintro ⟨hcount, -, hband⟩
    exact ⟨hcount, fun band hmem => (hband band hmem).2⟩
  · rintro ⟨hcount, hband⟩
    have hdistinct : ∀ n ∈ (s.query r).leastDistinct,
        n ≤ (group.map Record.name).toFinset.card := by rintro n ⟨⟩
    exact ⟨hcount, hdistinct, fun band hmem => ⟨hs.band_finite band hmem, hband band hmem⟩⟩

/-- The rows that count in a minute are rows of the log, and are read then. -/
theorem mem_rowsIn_iff {k : Int} {x : Record} :
    x ∈ s.rowsIn log r k ↔ x ∈ log.records ∧ s.counts r x = true ∧ x.time ∈ minuteAt k := by
  rw [rowsIn, List.mem_filter, Bool.and_eq_true, decide_eq_true_eq]

/-- A row that counts has its minute in the calendar. -/
theorem inCalendar_of_mem_rowsIn (hstart : r.asked.start.InCalendar)
    (hstop : r.asked.stop.InCalendar) {k : Int} {x : Record} (hx : x ∈ s.rowsIn log r k) :
    (Instant.ofSeconds (60 * k)).InCalendar := by
  obtain ⟨-, hcounts, hminute⟩ := mem_rowsIn_iff.1 hx
  simp only [counts, Bool.and_eq_true, decide_eq_true_eq, searched, minuteAt, Range.mem_iff,
    Instant.le_iff, Instant.lt_iff, Instant.nanos_ofSeconds] at hcounts hminute
  obtain ⟨⟨-, hfrom, hto⟩, -⟩ := hcounts
  simp only [Instant.InCalendar, Instant.second, Instant.nanos_ofSeconds, Instant.firstSecond,
    Instant.lastSecond] at hstart hstop hfrom ⊢
  omega

/-- The windows that are answered are the active minutes. -/
theorem mem_windows_iff (hs : s.Proper) (hstart : r.asked.start.InCalendar)
    (hstop : r.asked.stop.InCalendar) (hnumbers : ∀ x ∈ log.records, IsNumber x.value)
    {m : Range} :
    m ∈ (log.windows r.token (s.query r)).map Window.range ↔
      ∃ k, m = minuteAt k ∧ s.Active log r k := by
  -- the rows of a bucket qualify exactly when its minute is active
  have hactive : ∀ k, Log.qualifies (s.query r) (log.bucketRows r.token (s.query r) (60 * k)) =
      true ↔ s.Active log r k := by
    intro k
    have hperm : (log.bucketRows r.token (s.query r) (60 * k)).Perm (s.rowsIn log r k) :=
      bucketRows_perm hstart k
    have hrows : ∀ x ∈ log.bucketRows r.token (s.query r) (60 * k), IsNumber x.value :=
      fun x hx => hnumbers x (mem_rowsIn_iff.1 (hperm.mem_iff.1 hx)).1
    rw [qualifies_iff hs hrows, Active, hperm.length_eq]
    simp only [hperm.mem_iff]
  rw [List.mem_map]
  constructor
  · rintro ⟨w, hw, rfl⟩
    obtain ⟨b, hne, hqualifies, hwindow⟩ := Log.mem_windows_iff.1 hw
    obtain ⟨-, rfl⟩ := Log.window?_eq_some_iff.1 hwindow
    obtain ⟨k, rfl⟩ : ∃ k, b = 60 * k := Log.exists_eq_mul_of_bucketRows hne
    exact ⟨_, (minuteAt_eq _).symm, (hactive _).1 hqualifies⟩
  · rintro ⟨k, rfl, hk⟩
    have hperm : (log.bucketRows r.token (s.query r) (60 * k)).Perm (s.rowsIn log r k) :=
      bucketRows_perm hstart k
    have hpos : 0 < (s.rowsIn log r k).length := Nat.lt_of_lt_of_le hs.leastCount_pos hk.1
    obtain ⟨x, hx⟩ := List.exists_mem_of_length_pos hpos
    refine ⟨_, Log.mem_windows_iff.2 ⟨60 * k, ?_, (hactive k).2 hk, Log.window?_eq_some_iff.2
      ⟨inCalendar_of_mem_rowsIn hstart hstop hx, rfl⟩⟩, (minuteAt_eq k).symm⟩
    exact List.ne_nil_of_mem (hperm.mem_iff.2 hx)

/-- Windows are answered in order. -/
theorem pairwise_ranges (s : MinuteSearch) (log : Log) (r : Request) :
    ((log.windows r.token (s.query r)).map Window.range).Pairwise fun a b =>
      a.start < b.start ∧ a.stop ≤ b.stop := by
  rw [List.pairwise_map]
  apply (log.pairwise_windows r.token (s.query r)).imp_of_mem
  intro v w hv hw hlt
  have hvstop := (Log.bounds_of_mem_windows (show (0 : Int) < 60 by decide) hv).1
  have hwstop := (Log.bounds_of_mem_windows (show (0 : Int) < 60 by decide) hw).1
  refine ⟨hlt, ?_⟩
  show v.stop.nanos ≤ w.stop.nanos
  rw [hvstop, hwstop]
  exact Int.add_le_add_right (Int.le_of_lt hlt) _

/-- An active minute starts before the end of the asked range. -/
theorem Active.start_lt (hs : s.Proper) {k : Int} (hk : s.Active log r k) :
    (minuteAt k).start < r.asked.stop := by
  have hpos : 0 < (s.rowsIn log r k).length := Nat.lt_of_lt_of_le hs.leastCount_pos hk.1
  obtain ⟨x, hx⟩ := List.exists_mem_of_length_pos hpos
  obtain ⟨-, hcounts, hminute⟩ := mem_rowsIn_iff.1 hx
  simp only [counts, Bool.and_eq_true, decide_eq_true_eq] at hcounts
  exact Int.lt_of_le_of_lt hminute.1 hcounts.1.2.2

/-! ## Two filters are one rule -/

/-- The segments of ranges, of which those that are long enough are kept, by a rule of their own
for each. -/
theorem atLeast_ofRanges {shortest : Span} {inner last inner' last' : Range → Option Segment}
    {ranges : List Range}
    (hinner : ∀ c ∈ ranges,
      (inner c).filter (fun s => decide (shortest ≤ s.duration)) = inner' c)
    (hlast : ∀ c ∈ ranges.getLast?,
      (last c).filter (fun s => decide (shortest ≤ s.duration)) = last' c) :
    Segment.atLeast shortest (Segment.ofRanges inner last ranges) =
      ranges.dropLast.filterMap inner' ++ (ranges.getLast?.bind last').toList := by
  rw [Segment.ofRanges_eq, Segment.atLeast, List.filter_append, List.filter_filterMap]
  congr 1
  · apply List.filterMap_congr
    intro c hc
    exact hinner c (List.dropLast_subset _ hc)
  · cases hc : ranges.getLast? with
    | none => rfl
    | some c =>
        rw [Option.bind_some, Option.bind_some, ← hlast c hc]
        cases last c with
        | none => rfl
        | some segment => simp [Option.filter_some, List.filter_cons]; split <;> rfl

/-- A finished segment that is reported as long enough. -/
theorem filter_closed? (hs : s.Proper) {start stop : Instant} {before : Bool} :
    (Segment.closed? start stop before).filter (fun x => decide (s.shortest ≤ x.duration)) =
      if s.shortest ≤ stop - start then
        some ⟨start, some stop, Segment.durationOf (stop - start), false, before⟩
      else none := by
  have hpos : 0 < s.shortest := Int.mul_pos hs.shortest_pos (by decide)
  rw [Segment.closed?]
  by_cases hlt : start < stop
  · have hlength : s.shortest ≤ Span.seconds (Segment.durationOf (stop - start)) ↔
        s.shortest ≤ stop - start :=
      Segment.seconds_le_seconds_durationOf_iff hs.shortest_le
        (Int.sub_nonneg_of_le (Int.le_of_lt hlt))
    simp only [if_pos hlt, Option.filter_some, Segment.duration, hlength, decide_eq_true_eq]
  · -- it would end before it starts
    have hshort : ¬ s.shortest ≤ stop - start := by
      intro hle
      exact hlt (Int.lt_of_sub_pos (Int.lt_of_lt_of_le hpos hle))
    rw [if_neg hlt, if_neg hshort]
    rfl

/-- A segment in progress that is reported as long enough. -/
theorem filter_ongoing (hs : s.Proper) {start stop : Instant} {before : Bool} (h : start < stop) :
    (some (Segment.ongoing start stop before)).filter
        (fun x => decide (s.shortest ≤ x.duration)) =
      if s.shortest ≤ stop - start then
        some ⟨start, none, Segment.durationOf (stop - start), true, before⟩
      else none := by
  have hlength : s.shortest ≤ Span.seconds (Segment.durationOf (stop - start)) ↔
      s.shortest ≤ stop - start :=
    Segment.seconds_le_seconds_durationOf_iff hs.shortest_le (Int.sub_nonneg_of_le (Int.le_of_lt h))
  simp only [Option.filter_some, Segment.duration, Segment.ongoing, hlength, decide_eq_true_eq]

/-- Runs are filtered, reported by rules for finished ones and for one in progress, and filtered
again; if the rules are those of chains, that is the answer of the chains. -/
theorem atLeast_relevant_eq_answer {asked : Range} {chains : List Range}
    {inner ongoing : Range → Option Segment}
    (hinner : ∀ c, (inner c).filter (fun x => decide (s.shortest ≤ x.duration)) =
      s.segment? asked false c)
    (hongoing : ∀ c ∈ chains, (ongoing c).filter (fun x => decide (s.shortest ≤ x.duration)) =
      s.segment? asked true c) :
    Segment.atLeast s.shortest (Segment.ofRanges inner
        (if Activity.lastTrails asked now s.gap (Activity.relevant asked s.shortest chains)
          then ongoing else inner) (Activity.relevant asked s.shortest chains)) =
      s.answer now asked chains := by
  have hkept : Activity.relevant asked s.shortest chains = s.kept asked chains := by
    rw [Activity.relevant, Range.atLeast, List.filter_filter, kept]
    apply List.filter_congr
    intro c _
    rw [Bool.and_comm]
  rw [hkept, answer]
  apply atLeast_ofRanges
  · intro c _
    exact hinner c
  · intro c hc
    have hgoesOn : Activity.lastTrails asked now s.gap (s.kept asked chains) =
        s.goesOn now asked c := by
      rw [Activity.lastTrails, Option.mem_def.1 hc]
      rfl
    rw [hgoesOn]
    cases s.goesOn now asked c with
    | true => exact hongoing c (List.mem_filter.1 (List.mem_of_getLast? hc)).1
    | false => exact hinner c

/-- Runs from their own starts are told as chains are. -/
theorem keepStarts_eq_answer (hs : s.Proper) (hcuts : s.cutsStart = false) {asked : Range}
    {active : List Range} (hactive : ∀ m ∈ active, m.start < asked.stop) :
    (Activity.ofStretches asked now s.gap s.shortest active).keepStarts asked s.shortest =
      s.answer now asked (Range.merge s.gap active) := by
  apply atLeast_relevant_eq_answer
  · intro c
    rw [Segment.capped, filter_closed? hs, segment?, startOf, hcuts]
    rfl
  · intro c hc
    have hstart : c.start < asked.stop :=
      Range.forall_mem_mergeWith (P := fun c => c.start < asked.stop) (fun _ _ ha _ => ha)
        hactive c hc
    rw [Segment.cappedOngoing, filter_ongoing hs hstart, segment?, startOf, hcuts]
    rfl

/-- Runs cut to the asked range are told as chains are that are cut where it begins. -/
theorem clip_eq_answer (hs : s.Proper) (hcuts : s.cutsStart = true) (asked : Range)
    (active : List Range) :
    (Activity.ofStretches asked now s.gap s.shortest active).clip asked s.shortest =
      s.answer now asked (Range.merge s.gap active) := by
  have hpos : 0 < s.shortest := Int.mul_pos hs.shortest_pos (by decide)
  apply atLeast_relevant_eq_answer
  · intro c
    rw [Segment.clipped, filter_closed? hs, segment?, startOf, hcuts]
    rfl
  · intro c _
    rw [Segment.clippedOngoing, segment?, startOf, hcuts]
    by_cases hlt : max c.start asked.start < asked.stop
    · simp only [if_pos hlt]
      exact filter_ongoing hs hlt
    · have hshort : ¬ s.shortest ≤ asked.stop - max c.start asked.start := by
        intro hle
        exact hlt (Int.lt_of_sub_pos (Int.lt_of_lt_of_le hpos hle))
      simp only [if_neg hlt, if_true, if_neg hshort, Option.filter_none]

/-! ## Both mechanisms -/

/-- What is grown from windows is told by the active minutes. -/
theorem tells_of_windows (hs : s.Proper) (hstart : r.asked.start.InCalendar)
    (hstop : r.asked.stop.InCalendar) (hnumbers : ∀ x ∈ log.records, IsNumber x.value)
    {outcome : Outcome ReadFailure (List Segment)}
    (h : outcome = .answer (s.answer now r.asked
      (Range.merge s.gap ((log.windows r.token (s.query r)).map Window.range)))) :
    s.Tells log now r outcome := by
  have hsorted := pairwise_ranges s log r
  obtain ⟨chains, hchains, hmerge⟩ := Range.exists_chains_merge hs.gap_nonneg hsorted
  refine ⟨_, chains, hsorted.imp And.left, fun m => mem_windows_iff hs hstart hstop hnumbers,
    hchains, ?_⟩
  rw [hmerge]
  exact h

end MinuteSearch

/-- Trips are searched properly if no tunable is outside. -/
theorem Arrivals.proper_minuteSearch {t : Tuning} (h : t.firstOutside = none) :
    (minuteSearch t).Proper where
  leastCount_pos := Nat.lt_of_lt_of_le (by decide) (Tuning.le_countThreshold h (by decide))
  gap_nonneg := gap_nonneg h
  shortest_pos := (Tuning.minSegment_reportable h (by decide)).1
  shortest_le := (Tuning.minSegment_reportable h (by decide)).2
  band_finite := by
    rintro band ⟨⟩

/-- So is idling. -/
theorem Idling.proper_minuteSearch {t : Tuning} (h : t.firstOutside = none) :
    (minuteSearch t).Proper where
  leastCount_pos := Nat.lt_of_lt_of_le (by decide) (Tuning.le_countThreshold h (by decide))
  gap_nonneg := Tuning.maxGap_nonneg h (by decide)
  shortest_pos := (Tuning.minSegment_reportable h (by decide)).1
  shortest_le := (Tuning.minSegment_reportable h (by decide)).2
  band_finite := by
    rintro band ⟨⟩
    have habove : (0.0 : Float) < Log.largestFinite := by decide +kernel
    have hlow : -Log.largestFinite ≤ (100.0 : Float) := by decide +kernel
    exact ⟨habove, FloatOrder.le_trans hlow (Tuning.le_idleRpm h (by decide +kernel))⟩

/-- What both mechanisms answer is told by the active minutes of the log, if its values are
numbers. -/
theorem told_by_minutes {log : Log} {r : Request} (hvalid : r.tuning.firstOutside = none)
    (hstart : r.asked.start.InCalendar) (hstop : r.asked.stop.InCalendar)
    (hnumbers : ∀ x ∈ log.records, IsNumber x.value) (now : Instant) :
    (Arrivals.minuteSearch r.tuning).Tells log now r
        (Mechanism.frequency.detect log.source now r).outcome ∧
      (Idling.minuteSearch r.tuning).Tells log now r
        (Mechanism.staticRpm.detect log.source now r).outcome := by
  constructor
  · have hs : (Arrivals.minuteSearch r.tuning).Proper := Arrivals.proper_minuteSearch hvalid
    apply MinuteSearch.tells_of_windows hs hstart hstop hnumbers
    rw [Log.outcome_frequency]
    refine congrArg Outcome.answer (MinuteSearch.keepStarts_eq_answer hs rfl ?_)
    intro m hm
    obtain ⟨k, rfl, hk⟩ := (MinuteSearch.mem_windows_iff hs hstart hstop hnumbers).1 hm
    exact hk.start_lt hs
  · have hs : (Idling.minuteSearch r.tuning).Proper := Idling.proper_minuteSearch hvalid
    apply MinuteSearch.tells_of_windows hs hstart hstop hnumbers
    rw [Log.outcome_staticRpm]
    exact congrArg Outcome.answer (MinuteSearch.clip_eq_answer hs rfl r.asked _)

/-- Four minutes in which the engine idles, with a row every five seconds. -/
def idlingLog : Log :=
  ⟨(List.range 48).map fun (i : Nat) =>
    ⟨42, Signal.engineSpeed, .ofSeconds (5 * (i : Int)), 800.0⟩⟩

/-- The idling of these minutes. -/
def shortIdle : Segment := ⟨.ofSeconds 0, some (.ofSeconds 240), 240, false, false⟩

theorem windows_idlingLog :
    (idlingLog.windows 42 (Idling.windowQuery Arrivals.firstMinutes)).map Window.range =
      (List.range 4).map fun (i : Nat) => minuteAt i := by
  have hsorted : idlingLog.bucketed 42 (Idling.windowQuery Arrivals.firstMinutes) =
      idlingLog.records.filter (Log.counts 42 (Idling.windowQuery Arrivals.firstMinutes)) :=
    Log.bucketed_of_pairwise (by decide +kernel) 42 (by decide)
  show ((Log.gather _ (idlingLog.bucketed _ _)).filterMap _).map _ = _
  rw [hsorted]
  decide +kernel

/-- These minutes are one run of idling. -/
theorem merge_idlingMinutes :
    Range.merge (Idling.gap .default) ((List.range 4).map fun (i : Nat) => minuteAt i) =
      [⟨.ofSeconds 0, .ofSeconds 240⟩] := by
  have hsorted : ((List.range 4).map fun (i : Nat) => minuteAt i).mergeSort Range.notAfter =
      (List.range 4).map fun (i : Nat) => minuteAt i :=
    Range.mergeSort_eq_self (by decide +kernel)
  rw [Range.merge, Range.mergeWith, hsorted]
  decide +kernel

theorem outcome_idlingLog :
    (Mechanism.staticRpm.detect idlingLog.source (.ofSeconds 600)
      Arrivals.firstMinutes).outcome = .answer [shortIdle] := by
  have hwindows : (idlingLog.windows Arrivals.firstMinutes.token
      (Idling.windowQuery Arrivals.firstMinutes)).map Window.range = _ := windows_idlingLog
  have hmerge : Range.merge (Idling.gap Arrivals.firstMinutes.tuning) _ = _ := merge_idlingMinutes
  rw [Log.outcome_staticRpm, Idling.windowSegments, hwindows, Activity.ofStretches, hmerge]
  exact congrArg Outcome.answer (by decide +kernel)

theorem told_by_minutes_idlingLog :
    Arrivals.firstMinutes.tuning.firstOutside = none ∧
      Arrivals.firstMinutes.asked.start.InCalendar ∧ Arrivals.firstMinutes.asked.stop.InCalendar ∧
      (∀ x ∈ idlingLog.records, IsNumber x.value) ∧
      (Arrivals.minuteSearch Arrivals.firstMinutes.tuning).Tells idlingLog (.ofSeconds 600)
        Arrivals.firstMinutes (Mechanism.frequency.detect idlingLog.source (.ofSeconds 600)
          Arrivals.firstMinutes).outcome ∧
      (Idling.minuteSearch Arrivals.firstMinutes.tuning).Tells idlingLog (.ofSeconds 600)
        Arrivals.firstMinutes (.answer [shortIdle]) := by
  have hstart : Arrivals.firstMinutes.asked.start.InCalendar := by decide
  have hstop : Arrivals.firstMinutes.asked.stop.InCalendar := by decide
  have hnumbers : ∀ x ∈ idlingLog.records, IsNumber x.value := by decide +kernel
  obtain ⟨htrips, hidling⟩ := told_by_minutes rfl hstart hstop hnumbers (.ofSeconds 600)
  rw [outcome_idlingLog] at hidling
  exact ⟨rfl, hstart, hstop, hnumbers, htrips, hidling⟩

end Telematics
