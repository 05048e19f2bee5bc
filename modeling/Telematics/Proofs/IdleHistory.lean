import Telematics.Proofs.LogReads
import Telematics.Proofs.OngoingIdling

/-!
# Idling in the past is found in the whole history

A detector of idling does not read the whole history of the engine speed: it begins one longest gap
before the asked range, so that a block of idle samples may be cut, or may begin there with another
sample. Here the whole history up to the end of the asked range is the measure. It is split into its
blocks of idle samples (`mem_blocks_iff`, `flatten_blocks`), and each block gives a segment by a
rule of its own (`blockSegment?`). `told_by_history` says that for ranges that are long over the
detector answers exactly these segments.

The lookback is sufficient because a run that begins before the asked range is reported with the
start of the asked range, wherever it begins (`filterMap_growRuns_of_starts`), and what lies a gap
before the asked range can only be joined to a run that begins before the range
(`filterMap_growRuns_append`).
-/

set_option autoImplicit false

namespace Telematics.Idling

variable {ceiling : Float} {gap : Span} {samples : List (Sample Float)}

/-! ## Blocks are maximal -/

/-- A block in place that begins where the sample before it does not belong to it. -/
structure MaximalBlock (ceiling : Float) (gap : Span)
    (samples before block after : List (Sample Float)) : Prop
    extends BlockAt ceiling gap samples before block after where
  /-- There is a sample in it. -/
  ne_nil : block ≠ []
  /-- The sample before the block is not idle, or too long before it. -/
  begins : ∀ a ∈ before.getLast?, ∀ b ∈ block.head?, together ceiling gap a b = false

/-- Between two parts of a list of pieces that are cut by a test the test fails. -/
theorem test_eq_false_of_isChain {α : Type} {test : α → α → Bool} {earlier later : List (List α)}
    (hne : [] ∉ earlier ++ later)
    (hcut : (earlier ++ later).IsChain fun a b =>
      ∃ ha hb, test (a.getLast ha) (b.head hb) = false) :
    ∀ a ∈ earlier.flatten.getLast?, ∀ b ∈ later.flatten.head?, test a b = false := by
  intro a ha b hb
  rcases List.eq_nil_or_concat' earlier with rfl | ⟨init, prev, rfl⟩
  · exact absurd ha (by simp)
  cases later with
  | nil => exact absurd hb (by simp)
  | cons next later =>
      obtain ⟨-, -, hbetween⟩ := List.isChain_append.1 hcut
      obtain ⟨hprev, hnext, hfalse⟩ := hbetween prev (by simp) next (by simp)
      rw [List.flatten_append, List.flatten_singleton, List.getLast?_append_of_ne_nil _ hprev,
        List.getLast?_eq_some_getLast hprev, Option.mem_some_iff] at ha
      rw [List.flatten_cons, List.head?_append_of_ne_nil _ hnext, List.head?_eq_some_head hnext,
        Option.mem_some_iff] at hb
      rw [← ha, ← hb]
      exact hfalse

/-- The pieces of a list that is cut by a test are its parts between two cuts. -/
theorem mem_splitBy_iff {α : Type} {test : α → α → Bool} {l piece : List α} :
    piece ∈ l.splitBy test ↔ piece ≠ [] ∧ (piece.IsChain fun a b => test a b = true) ∧
      ∃ before after, l = before ++ piece ++ after ∧
        (∀ a ∈ before.getLast?, ∀ b ∈ piece.head?, test a b = false) ∧
        ∀ a ∈ piece.getLast?, ∀ b ∈ after.head?, test a b = false := by
  constructor
  · intro h
    have hne := List.ne_nil_of_mem_splitBy h
    obtain ⟨earlier, later, hpieces⟩ := List.append_of_mem h
    have hnil := List.nil_notMem_splitBy test l
    have hcut := List.isChain_getLast_head_splitBy test l
    have hflat := List.flatten_splitBy test l
    refine ⟨hne, List.isChain_of_mem_splitBy h, earlier.flatten, later.flatten, ?_, ?_, ?_⟩
    · rw [← hflat, hpieces]
      simp
    · rw [hpieces] at hnil hcut
      have hfalse := test_eq_false_of_isChain hnil hcut
      rw [List.flatten_cons, List.head?_append_of_ne_nil _ hne] at hfalse
      exact hfalse
    · rw [hpieces, List.append_cons] at hnil hcut
      have hfalse := test_eq_false_of_isChain hnil hcut
      rw [List.flatten_append, List.flatten_singleton,
        List.getLast?_append_of_ne_nil _ hne] at hfalse
      exact hfalse
  · rintro ⟨hne, hchain, before, after, rfl, hbegins, hcut⟩
    rw [List.splitBy_append, List.splitBy_append hbegins, List.splitBy_of_isChain hne hchain]
    · simp
    · rw [List.getLast?_append_of_ne_nil _ hne]
      exact hcut

/-- The blocks are the maximal pieces of idle samples. -/
theorem mem_blocks_iff {block : List (Sample Float)} :
    block ∈ blocks ceiling gap samples ↔
      ∃ before after, MaximalBlock ceiling gap samples before block after := by
  rw [blocks, List.mem_filter, mem_splitBy_iff]
  constructor
  · rintro ⟨⟨hne, hchain, before, after, hsplit, hbegins, hcut⟩, hidle⟩
    exact ⟨before, after, ⟨hsplit, hchain, hidle, hcut⟩, hne, hbegins⟩
  · rintro ⟨before, after, ⟨hsplit, hchain, hidle, hcut⟩, hne, hbegins⟩
    exact ⟨⟨hne, hchain, before, after, hsplit, hbegins, hcut⟩, hidle⟩

/-- Every idle sample is in exactly one block, and the blocks are in the order of the samples. -/
theorem flatten_blocks (ceiling : Float) (gap : Span) (samples : List (Sample Float)) :
    (blocks ceiling gap samples).flatten = samples.filter fun s => isIdle ceiling s.value := by
  have hpieces : ∀ pieces : List (List (Sample Float)),
      (∀ piece ∈ pieces, piece.IsChain fun a b => together ceiling gap a b = true) →
        (pieces.filter (allIdle ceiling)).flatten =
          pieces.flatten.filter fun s => isIdle ceiling s.value := by
    intro pieces hchain
    induction pieces with
    | nil => rfl
    | cons piece pieces ih =>
        have ih := ih fun p hp => hchain p (List.mem_cons_of_mem _ hp)
        rw [List.flatten_cons, List.filter_append, ← ih]
        cases hall : allIdle ceiling piece with
        | true =>
            have hself : piece.filter (fun s => isIdle ceiling s.value) = piece :=
              List.filter_eq_self.2 (List.all_eq_true.1 hall)
            rw [List.filter_cons_of_pos hall, List.flatten_cons, hself]
        | false =>
            -- a piece that is not idle is one sample that is not
            have hnone : piece.filter (fun s => isIdle ceiling s.value) = [] := by
              cases piece with
              | nil => rfl
              | cons s later =>
                  rcases allIdle_or_eq_singleton (hchain _ List.mem_cons_self) with
                    ⟨-, hidle⟩ | ⟨hnot, rfl⟩
                  · rw [hidle] at hall
                    exact Bool.noConfusion hall
                  · simp [hnot]
            rw [List.filter_cons_of_neg (by simp [hall]), hnone, List.nil_append]
  rw [blocks, hpieces _ fun _ h => List.isChain_of_mem_splitBy h, List.flatten_splitBy]

/-! ## Reported runs -/

/-- The segment of a finished run: cut to the asked range, and long enough there. -/
def runSegment? (asked : Range) (minDuration : Span) (run : Range) : Option Segment :=
  let start := max run.start asked.start
  if asked.start < run.stop ∧ minDuration ≤ run.stop - start then
    some ⟨start, some run.stop, Segment.durationOf (run.stop - start), false,
      decide (run.start < asked.start)⟩
  else none

/-- The segment of a block of idle samples. -/
def blockSegment? (asked : Range) (minDuration : Span) (block : List (Sample Float)) :
    Option Segment :=
  (span? block).bind (runSegment? asked minDuration)

/-- A run that is over a gap before the asked range is not reported. -/
theorem runSegment?_eq_none {asked run : Range} {minDuration : Span} (hgap : 0 ≤ gap)
    (h : run.stop < asked.start - gap) : runSegment? asked minDuration run = none := by
  have hle : run.stop ≤ asked.start := Int.le_trans (Int.le_of_lt h) (Int.sub_le_self _ hgap)
  exact if_neg fun hover => Instant.not_lt.2 hle hover.1

/-- Where a run begins before the asked range does not matter. -/
theorem runSegment?_congr {asked : Range} {minDuration : Span} {start start' stop : Instant}
    (h : start < asked.start) (h' : start' < asked.start) :
    runSegment? asked minDuration ⟨start, stop⟩ = runSegment? asked minDuration ⟨start', stop⟩ := by
  simp only [runSegment?, Instant.max_eq_right (Int.le_of_lt h),
    Instant.max_eq_right (Int.le_of_lt h'), decide_eq_true h, decide_eq_true h']

/-- A run that is over at the end of the asked range is cut, and then its length decides. -/
theorem filter_clipped {asked run : Range} {n : Int} (h0 : 0 < n) (hn : n ≤ Segment.longest)
    (hstop : run.stop ≤ asked.stop) (hover : asked.start < run.stop) :
    (Segment.clipped asked run).filter (fun s => decide (Span.seconds n ≤ s.duration)) =
      runSegment? asked (Span.seconds n) run := by
  have hpos : 0 < Span.seconds n := Int.mul_pos h0 (by decide)
  rw [Segment.clipped, Instant.min_eq_left hstop, Segment.closed?, runSegment?]
  by_cases hlt : max run.start asked.start < run.stop
  · have hlength : Span.seconds n ≤
        Span.seconds (Segment.durationOf (run.stop - max run.start asked.start)) ↔
          Span.seconds n ≤ run.stop - max run.start asked.start :=
      Segment.seconds_le_seconds_durationOf_iff hn (Int.sub_nonneg_of_le (Int.le_of_lt hlt))
    simp only [if_pos hlt, Option.filter_some, Segment.duration, hlength, hover, true_and,
      decide_eq_true_eq]
  · -- nothing is left of the run
    have hshort : ¬ Span.seconds n ≤ run.stop - max run.start asked.start := by
      intro hle
      exact hlt (Int.lt_of_sub_pos (Int.lt_of_lt_of_le hpos hle))
    rw [if_neg hlt, if_neg fun h => hshort h.2]
    rfl

/-- Runs that are over at the end of the asked range are filtered, cut and filtered again; that is
one rule for each. -/
theorem clip_relevant_eq_filterMap {asked : Range} {n : Int} {found : List Range} (h0 : 0 < n)
    (hn : n ≤ Segment.longest) (hstop : ∀ run ∈ found, run.stop ≤ asked.stop) :
    Activity.clip asked (Span.seconds n)
        ⟨Activity.relevant asked (Span.seconds n) found, false⟩ =
      found.filterMap (runSegment? asked (Span.seconds n)) := by
  rw [Activity.clip, Segment.clip_false, Segment.atLeast, List.filter_filterMap,
    Activity.relevant, Range.atLeast, List.filter_filter, List.filterMap_filter]
  apply List.filterMap_congr
  intro run hrun
  by_cases hrelevant : asked.start < run.stop ∧ Span.seconds n ≤ run.length
  · rw [if_pos (by simpa using hrelevant)]
    exact filter_clipped h0 hn (hstop run hrun) hrelevant.1
  · rw [if_neg (by simpa using hrelevant), runSegment?]
    refine (if_neg fun h => hrelevant ⟨h.1, Int.le_trans h.2 ?_⟩).symm
    exact Int.sub_le_sub_left (Int.le_max_left _ _) _

/-! ## Cut histories -/

section CutHistory

variable {asked : Range} {minDuration : Span}

/-- Two runs that begin before the asked range, grown over the same samples, are reported alike. -/
theorem filterMap_growRuns_of_starts {start start' stop : Instant} (h : start < asked.start)
    (h' : start' < asked.start) (samples : List (Sample Float)) :
    (growRuns ceiling gap (some ⟨start, stop⟩) samples).filterMap (runSegment? asked minDuration) =
      (growRuns ceiling gap (some ⟨start', stop⟩) samples).filterMap
        (runSegment? asked minDuration) := by
  have hsame : ∀ stop, runSegment? asked minDuration ⟨start, stop⟩ =
      runSegment? asked minDuration ⟨start', stop⟩ := fun _ => runSegment?_congr h h'
  induction samples generalizing stop with
  | nil =>
      simp only [growRuns, Option.toList_some, List.filterMap_cons, hsame]
  | cons s later ih =>
      rw [growRuns, growRuns]
      cases hidle : isIdle ceiling s.value with
      | true =>
          simp only [if_true]
          by_cases hclose : s.time - stop ≤ gap
          · rw [if_pos hclose, if_pos hclose]
            exact ih
          · simp only [if_neg hclose, List.filterMap_cons, hsame]
      | false =>
          simp only [Bool.false_eq_true, if_false, Option.toList_some, List.filterMap_append,
            List.filterMap_cons, hsame]

/-- A run that is over a gap before the asked range gives nothing by itself; a sample that it is
joined to lies before the asked range. -/
theorem filterMap_growRuns_some (hgap : 0 ≤ gap) {run : Range} (hstart : run.start < asked.start)
    (hstop : run.stop < asked.start - gap) (samples : List (Sample Float)) :
    (growRuns ceiling gap (some run) samples).filterMap (runSegment? asked minDuration) =
      (growRuns ceiling gap none samples).filterMap (runSegment? asked minDuration) := by
  have hnone : runSegment? asked minDuration run = none := runSegment?_eq_none hgap hstop
  cases samples with
  | nil =>
      simp only [growRuns, Option.toList_some, Option.toList_none, List.filterMap_cons, hnone]
  | cons s later =>
      rw [growRuns, growRuns]
      cases hidle : isIdle ceiling s.value with
      | true =>
          simp only [if_true]
          by_cases hclose : s.time - run.stop ≤ gap
          · -- the sample is joined, but it is read less than a gap after the run and so before the
            -- asked range; a run that begins with it is reported alike
            rw [if_pos hclose]
            refine filterMap_growRuns_of_starts hstart ?_ later
            rw [Instant.sub_le_iff] at hclose
            rw [Instant.lt_iff, Instant.nanos_sub] at hstop
            rw [Instant.lt_iff]
            exact Int.lt_of_le_of_lt hclose (Int.add_lt_of_lt_sub_right hstop)
          · simp only [if_neg hclose, List.filterMap_cons, hnone]
      | false =>
          simp only [Bool.false_eq_true, if_false, Option.toList_some, Option.toList_none,
            List.filterMap_append, List.filterMap_cons, hnone]

/-- Samples that are more than a gap before the asked range do not matter to what is reported. -/
theorem filterMap_growRuns_append (hgap : 0 ≤ gap) {early : List (Sample Float)}
    (hearly : ∀ s ∈ early, s.time < asked.start - gap) (late : List (Sample Float))
    {run : Option Range}
    (hrun : ∀ r ∈ run, r.start < asked.start ∧ r.stop < asked.start - gap) :
    (growRuns ceiling gap run (early ++ late)).filterMap (runSegment? asked minDuration) =
      (growRuns ceiling gap none late).filterMap (runSegment? asked minDuration) := by
  -- the open run stays a gap before the asked range as long as the samples do
  induction early generalizing run with
  | nil =>
      cases run with
      | none => rfl
      | some r => exact filterMap_growRuns_some hgap (hrun r rfl).1 (hrun r rfl).2 late
  | cons s early ih =>
      have ih := @ih fun x hx => hearly x (List.mem_cons_of_mem _ hx)
      have hs : s.time < asked.start - gap := hearly s List.mem_cons_self
      have hstart : s.time < asked.start := Int.lt_of_lt_of_le hs (Int.sub_le_self _ hgap)
      have hnew : ∀ r ∈ some (⟨s.time, s.time⟩ : Range),
          r.start < asked.start ∧ r.stop < asked.start - gap := by
        rintro r ⟨⟩
        exact ⟨hstart, hs⟩
      have hnothing : ∀ r ∈ (none : Option Range),
          r.start < asked.start ∧ r.stop < asked.start - gap := by
        rintro r ⟨⟩
      cases run with
      | none =>
          rw [List.cons_append, growRuns]
          cases hidle : isIdle ceiling s.value with
          | true => exact ih hnew
          | false => exact ih hnothing
      | some r =>
          obtain ⟨hrstart, hrstop⟩ := hrun r rfl
          have hnone : runSegment? asked minDuration r = none := runSegment?_eq_none hgap hrstop
          rw [List.cons_append, growRuns]
          cases hidle : isIdle ceiling s.value with
          | true =>
              simp only [if_true]
              by_cases hclose : s.time - r.stop ≤ gap
              · rw [if_pos hclose]
                apply ih
                rintro r' ⟨⟩
                exact ⟨hrstart, hs⟩
              · rw [if_neg hclose, List.filterMap_cons, hnone]
                exact ih hnew
          | false =>
              simp only [Bool.false_eq_true, if_false, Option.toList_some, List.singleton_append,
                List.filterMap_cons, hnone]
              exact ih hnothing

end CutHistory

/-- What is reported of a whole history is what is reported of the samples from one gap before the
asked range on. -/
theorem filterMap_runs_eq (asked : Range) (minDuration : Span) (hgap : 0 ≤ gap)
    (hsorted : Series.Ascending samples) :
    (runs ceiling gap samples).filterMap (runSegment? asked minDuration) =
      (runs ceiling gap (samples.filter fun s => decide (asked.start - gap ≤ s.time))).filterMap
        (runSegment? asked minDuration) := by
  rw [← Series.dropWhile_eq_filter hsorted, runs, runs]
  conv_lhs => rw [← List.takeWhile_append_dropWhile
    (p := fun s : Sample Float => decide (s.time < asked.start - gap)) (l := samples)]
  apply filterMap_growRuns_append hgap
  · intro s hs
    exact of_decide_eq_true (List.all_eq_true.1 List.all_takeWhile s hs)
  · rintro r ⟨⟩

/-! ## Answers from the whole history -/

/-- The samples of the engine speed up to the end of the asked range. -/
def history (log : Log) (r : Request) : List (Sample Float) :=
  Series.upTo r.asked.stop (log.rows r.token Signal.engineSpeed)

theorem ascending_history (log : Log) (r : Request) : Series.Ascending (history log r) :=
  (log.ascending_rows r.token Signal.engineSpeed).sublist (List.takeWhile_sublist _)

/-- The samples that are read are those of the history from one gap before the asked range on. -/
theorem engineSpeeds_eq (log : Log) (r : Request) :
    log.engineSpeeds r =
      (history log r).filter fun s => decide (r.asked.start - Idling.gap r.tuning ≤ s.time) := by
  rw [history, Series.upTo_eq_filter (log.ascending_rows r.token Signal.engineSpeed),
    List.filter_filter]
  rfl

/-- The runs of the samples that are read are over at the end of the asked range. -/
theorem stop_le_of_mem_runs {log : Log} {r : Request} {run : Range}
    (hrun : run ∈ runs ceiling gap (log.engineSpeeds r)) : run.stop ≤ r.asked.stop := by
  rw [runs_eq_blocks, List.mem_filterMap] at hrun
  obtain ⟨block, hblock, hspan⟩ := hrun
  obtain ⟨-, s, hs, hstop⟩ := exists_mem_of_span? hspan
  have hmem : s ∈ (log.engineSpeeds r).filter fun s => isIdle ceiling s.value := by
    rw [← flatten_blocks ceiling gap]
    exact List.mem_flatten_of_mem hblock hs
  rw [← hstop]
  exact (Log.time_of_mem_levels (List.mem_filter.1 hmem).1).2

/-- The segments of a range that was over long ago are those of the blocks of the history. -/
theorem segments_eq_history (log : Log) {now : Instant} {r : Request}
    (hvalid : r.tuning.firstOutside = none)
    (hpast : Idling.gap r.tuning < now - r.asked.stop) :
    segments r now (log.engineSpeeds r) =
      (blocks (Idling.ceiling r.tuning) (Idling.gap r.tuning) (history log r)).filterMap
        (blockSegment? r.asked (minDuration r.tuning)) := by
  have hgap : 0 ≤ Idling.gap r.tuning :=
    Tuning.maxGap_nonneg hvalid (show Tunable.maxGap.allows defaultGap = true by decide)
  obtain ⟨hpos, hlongest⟩ := Tuning.minSegment_reportable hvalid
    (show Tunable.minSegment.allows defaultMinSegment = true by decide)
  calc segments r now (log.engineSpeeds r)
      = Activity.clip r.asked (minDuration r.tuning)
          ⟨Activity.relevant r.asked (minDuration r.tuning) (runs (Idling.ceiling r.tuning)
            (Idling.gap r.tuning) (log.engineSpeeds r)), false⟩ := by
        rw [segments, Activity.lastTrails_eq_false hpast, Bool.and_false]
    _ = (runs (Idling.ceiling r.tuning) (Idling.gap r.tuning) (log.engineSpeeds r)).filterMap
          (runSegment? r.asked (minDuration r.tuning)) :=
        clip_relevant_eq_filterMap hpos hlongest fun run hrun => stop_le_of_mem_runs hrun
    _ = (runs (Idling.ceiling r.tuning) (Idling.gap r.tuning) (history log r)).filterMap
          (runSegment? r.asked (minDuration r.tuning)) := by
        rw [engineSpeeds_eq, ← filterMap_runs_eq _ _ hgap (ascending_history log r)]
    _ = (blocks (Idling.ceiling r.tuning) (Idling.gap r.tuning) (history log r)).filterMap
          (blockSegment? r.asked (minDuration r.tuning)) := by
        rw [runs_eq_blocks, List.filterMap_filterMap]
        rfl

/-- What an answer owes to the history of a log. -/
structure ToldByHistory (log : Log) (now : Instant) (r : Request) : Prop where
  /-- The segments are those of the blocks of the history. -/
  answered : (Mechanism.idling.detect log.source now r).outcome =
    .answer ((blocks (Idling.ceiling r.tuning) (Idling.gap r.tuning) (history log r)).filterMap
      (blockSegment? r.asked (minDuration r.tuning)))
  /-- The blocks are the maximal pieces of idle samples. -/
  maximal : ∀ block,
    block ∈ blocks (Idling.ceiling r.tuning) (Idling.gap r.tuning) (history log r) ↔
      ∃ before after, MaximalBlock (Idling.ceiling r.tuning) (Idling.gap r.tuning) (history log r)
        before block after
  /-- Together they are the idle samples, in order. -/
  complete : (blocks (Idling.ceiling r.tuning) (Idling.gap r.tuning) (history log r)).flatten =
    (history log r).filter fun s => isIdle (Idling.ceiling r.tuning) s.value

/-- For a range that was over more than the longest gap ago the answer is told by the whole
history, although only a part of it is read. -/
theorem told_by_history (log : Log) {now : Instant} {r : Request}
    (hvalid : r.tuning.firstOutside = none)
    (hpast : Idling.gap r.tuning < now - r.asked.stop) : ToldByHistory log now r where
  answered := congrArg Outcome.answer (segments_eq_history log hvalid hpast)
  maximal _ := mem_blocks_iff
  complete := flatten_blocks _ _ _

/-- The engine idles from long before the epoch until it drives off. -/
def longIdleLog : Log :=
  ⟨[⟨42, Signal.engineSpeed, .ofSeconds (-400), 800.0⟩,
    ⟨42, Signal.engineSpeed, .ofSeconds (-200), 800.0⟩,
    ⟨42, Signal.engineSpeed, .ofSeconds 100, 800.0⟩,
    ⟨42, Signal.engineSpeed, .ofSeconds 400, 800.0⟩,
    ⟨42, Signal.engineSpeed, .ofSeconds 600, 2000.0⟩]⟩

/-- The request for ten minutes from the epoch on, without tunables. -/
def tenMinutes : Request := ⟨42, ⟨.ofSeconds 0, .ofSeconds 600⟩, Tuning.default⟩

/-- The idling of these ten minutes. -/
def longIdle : Segment := ⟨.ofSeconds 0, some (.ofSeconds 400), 400, false, true⟩

theorem history_longIdleLog :
    (blocks (Idling.ceiling tenMinutes.tuning) (Idling.gap tenMinutes.tuning)
        (history longIdleLog tenMinutes)).filterMap
      (blockSegment? tenMinutes.asked (minDuration tenMinutes.tuning)) = [longIdle] := by
  have hrows : longIdleLog.rows 42 Signal.engineSpeed =
      longIdleLog.records.map fun r => ⟨r.time, r.value⟩ :=
    Log.rows_eq_map (by decide) (by decide)
  show (blocks _ _ (Series.upTo _ (longIdleLog.rows 42 Signal.engineSpeed))).filterMap _ = _
  rw [hrows]
  decide +kernel

theorem told_by_history_longIdleLog :
    tenMinutes.tuning.firstOutside = none ∧
      Idling.gap tenMinutes.tuning < Instant.ofSeconds 3600 - tenMinutes.asked.stop ∧
      ToldByHistory longIdleLog (.ofSeconds 3600) tenMinutes ∧
      (Mechanism.idling.detect longIdleLog.source (.ofSeconds 3600) tenMinutes).outcome =
        .answer [longIdle] := by
  have hvalid : tenMinutes.tuning.firstOutside = none := rfl
  have hpast : Idling.gap tenMinutes.tuning < Instant.ofSeconds 3600 - tenMinutes.asked.stop := by
    decide
  have htold := told_by_history longIdleLog hvalid hpast
  have hanswer := htold.answered
  rw [history_longIdleLog] at hanswer
  exact ⟨hvalid, hpast, htold, hanswer⟩

end Telematics.Idling
