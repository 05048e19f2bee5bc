import Telematics.Proofs.ActivityRuns
import Telematics.Proofs.IdleRuns
import Telematics.Proofs.Outcomes
import Telematics.Proofs.ValidRequests

/-!
# Idling that is still in progress

The last segment of idle samples is in progress if the last sample is idle and the last run that is
long enough is trailing. These are facts about different runs when the last run is too short: then
the segment in progress covers samples that are not idle, or a gap.
`idleThroughout_iff_of_isOngoing` says that this is the only way: the engine idles throughout a
segment in progress exactly when the last run is long enough, up to samples that were read together
with the first one. `not_idleThroughout_stopAndGo` is a log in which it is not.
-/

set_option autoImplicit false

namespace Telematics.Idling

variable {ceiling : Float} {gap : Span} {samples : List (Sample Float)}

/-! ## Blocks in place -/

/-- A block, what is before it and what is after it; the first sample after it does not belong to
it. -/
structure BlockAt (ceiling : Float) (gap : Span)
    (samples before block after : List (Sample Float)) : Prop where
  /-- The three parts are the samples. -/
  split : samples = before ++ block ++ after
  /-- Neighbours in the block belong together. -/
  chain : block.IsChain fun a b => together ceiling gap a b = true
  /-- All samples of the block are idle. -/
  idle : allIdle ceiling block = true
  /-- The block is over where the next sample begins. -/
  cut : ∀ a ∈ block.getLast?, ∀ b ∈ after.head?, together ceiling gap a b = false

/-- The last idle piece gives the last run. -/
theorem getLast?_runs {pieces : List (List (Sample Float))} {piece : List (Sample Float)}
    {r : Range} (hpieces : samples.splitBy (together ceiling gap) = pieces ++ [piece])
    (hidle : allIdle ceiling piece = true) (hspan : span? piece = some r) :
    (runs ceiling gap samples).getLast? = some r := by
  rw [runs_eq_blocks, blocks, hpieces, List.filter_append, List.filterMap_append]
  simp [hidle, hspan]

/-- Every run is the span of a block; it is the last run if the samples end with the block. -/
theorem exists_blockAt_of_mem_runs {r : Range} (hr : r ∈ runs ceiling gap samples) :
    ∃ before block after, BlockAt ceiling gap samples before block after ∧ span? block = some r ∧
      (after = [] → (runs ceiling gap samples).getLast? = some r) := by
  rw [runs_eq_blocks, List.mem_filterMap] at hr
  obtain ⟨block, hblock, hspan⟩ := hr
  rw [blocks, List.mem_filter] at hblock
  obtain ⟨hmem, hidle⟩ := hblock
  obtain ⟨earlier, later, hpieces⟩ := List.append_of_mem hmem
  -- pieces are not empty, so nothing follows the block only if no piece does
  have hne : [] ∉ later := by
    intro h
    have hnil := List.nil_notMem_splitBy (together ceiling gap) samples
    rw [hpieces] at hnil
    exact hnil (List.mem_append_right _ (List.mem_cons_of_mem _ h))
  refine ⟨earlier.flatten, block, later.flatten, ⟨?_, List.isChain_of_mem_splitBy hmem, hidle, ?_⟩,
    hspan, ?_⟩
  · have hflat := List.flatten_splitBy (together ceiling gap) samples
    rw [hpieces] at hflat
    rw [← hflat]
    simp
  · intro a ha b hb
    cases later with
    | nil => exact absurd hb (by simp)
    | cons next later =>
        have hcut := List.isChain_getLast_head_splitBy (together ceiling gap) samples
        rw [hpieces] at hcut
        obtain ⟨hlast, hhead, hfalse⟩ :=
          (List.isChain_cons_cons.1 (List.isChain_append.1 hcut).2.1).1
        rw [List.getLast?_eq_some_getLast hlast, Option.mem_some_iff] at ha
        rw [List.flatten_cons, List.head?_append_of_ne_nil _ hhead, List.head?_eq_some_head hhead,
          Option.mem_some_iff] at hb
        rw [← ha, ← hb]
        exact hfalse
  · intro hafter
    cases later with
    | nil => exact getLast?_runs hpieces hidle hspan
    | cons next later =>
        refine absurd hafter fun h => hne ?_
        rw [List.flatten_eq_nil_iff.1 h next List.mem_cons_self]
        exact List.mem_cons_self

/-- A piece is idle if its last sample is. -/
theorem allIdle_of_getLast {piece : List (Sample Float)}
    (hchain : piece.IsChain fun a b => together ceiling gap a b = true)
    (hlast : ∀ s ∈ piece.getLast?, isIdle ceiling s.value = true) :
    allIdle ceiling piece = true := by
  cases piece with
  | nil => rfl
  | cons s later =>
      rcases allIdle_or_eq_singleton hchain with ⟨-, hall⟩ | ⟨hnot, rfl⟩
      · exact hall
      · rw [hlast s (by simp)] at hnot
        exact Bool.noConfusion hnot

/-- If the engine idles to the end of the samples, they end with the block of the last run. -/
theorem exists_last_block (hstill : stillIdle ceiling samples = true) :
    ∃ before block r, BlockAt ceiling gap samples before block [] ∧ span? block = some r ∧
      (runs ceiling gap samples).getLast? = some r := by
  have hsamples : samples ≠ [] := by
    rintro rfl
    exact Bool.noConfusion hstill
  have hpieces : samples.splitBy (together ceiling gap) ≠ [] := mt List.splitBy_eq_nil.1 hsamples
  obtain ⟨earlier, block, hsplit⟩ := (List.eq_nil_or_concat' _).resolve_left hpieces
  have hmem : block ∈ samples.splitBy (together ceiling gap) := by
    rw [hsplit]
    exact List.mem_append_right _ List.mem_cons_self
  have hne : block ≠ [] := by
    rintro rfl
    exact List.nil_notMem_splitBy (together ceiling gap) samples hmem
  have hflat : samples = earlier.flatten ++ block := by
    have h := List.flatten_splitBy (together ceiling gap) samples
    rw [hsplit] at h
    rw [← h]
    simp
  have hchain := List.isChain_of_mem_splitBy hmem
  have hidle : allIdle ceiling block = true := by
    apply allIdle_of_getLast hchain
    intro s hs
    rw [stillIdle, hflat, List.getLast?_append_of_ne_nil _ hne, hs] at hstill
    exact hstill
  obtain ⟨s, later, rfl⟩ := List.exists_cons_of_ne_nil hne
  refine ⟨earlier.flatten, s :: later, _, ⟨?_, hchain, hidle, ?_⟩, rfl,
    getLast?_runs hsplit hidle rfl⟩
  · rw [List.append_nil]
    exact hflat
  · intro a _ b hb
    exact absurd hb (by simp)

/-! ## What is in progress -/

/-- Every sample between two instants is idle, and neighbours among them are not too far apart. -/
def IdleThroughout (ceiling : Float) (gap : Span) (start stop : Instant)
    (samples : List (Sample Float)) : Prop :=
  (∀ x ∈ samples, start ≤ x.time → x.time ≤ stop → isIdle ceiling x.value = true) ∧
    (Series.within start stop samples).IsChain fun a b : Sample Float => b.time - a.time ≤ gap

/-- A segment in progress starts with the last relevant run, cut to the asked range. -/
theorem exists_run_of_isOngoing {r : Request} {now : Instant} {s : Segment}
    (hs : s ∈ segments r now samples) (hongoing : s.isOngoing = true) :
    stillIdle (Idling.ceiling r.tuning) samples = true ∧
      ∃ run, (Activity.relevant r.asked (minDuration r.tuning)
          (runs (Idling.ceiling r.tuning) (Idling.gap r.tuning) samples)).getLast? = some run ∧
        s.start = max run.start r.asked.start ∧ s.start < r.asked.stop := by
  have hclosed : ∀ run, Segment.clipped r.asked run ≠ some s := by
    intro run hrun
    obtain ⟨-, rfl⟩ := Segment.closed?_eq_some hrun
    exact Bool.noConfusion hongoing
  have hmem := (List.mem_filter.1 hs).1
  rcases Segment.mem_ofRanges_iff.1 hmem with ⟨run, -, hrun⟩ | ⟨run, hlast, hrun⟩
  · exact absurd hrun (hclosed run)
  · split at hrun
    · rename_i hgoes
      rw [Bool.and_eq_true] at hgoes
      rw [Segment.clippedOngoing] at hrun
      split at hrun
      · rename_i hlt
        obtain rfl := Option.some.inj hrun
        exact ⟨hgoes.1, run, hlast, rfl, hlt⟩
      · exact absurd hrun (by simp)
    · exact absurd hrun (hclosed run)

/-- The ends of the span of a block are the times of its first and its last sample. -/
theorem ends_of_span? {block : List (Sample Float)} {run : Range} (h : span? block = some run) :
    (∃ s later, block = s :: later ∧ s.time = run.start) ∧
      ∃ x, block.getLast? = some x ∧ x.time = run.stop := by
  cases block with
  | nil => exact absurd h (by simp [span?])
  | cons s later =>
      obtain rfl := Option.some.inj h
      exact ⟨⟨s, later, rfl, rfl⟩, _, List.getLast?_eq_some_getLast _, rfl⟩

/-- From the start of the last block on the engine idles throughout, if the samples that were read
together with its first one are idle. -/
theorem idleThroughout_of_blockAt {before block : List (Sample Float)} {run : Range}
    {start stop : Instant} (hgap : 0 ≤ gap) (hsorted : Series.Ascending samples)
    (hblock : BlockAt ceiling gap samples before block []) (hspan : span? block = some run)
    (hstart : run.start ≤ start)
    (htogether : ∀ x ∈ samples, x.time = start → isIdle ceiling x.value = true) :
    IdleThroughout ceiling gap start stop samples := by
  obtain ⟨⟨s, later, rfl, hs⟩, -⟩ := ends_of_span? hspan
  have hsplit := hblock.split
  rw [List.append_nil] at hsplit
  rw [← hs] at hstart
  have hbefore : ∀ x ∈ before, x.time ≤ s.time := by
    intro x hx
    rw [hsplit, Series.Ascending, List.pairwise_append] at hsorted
    exact hsorted.2.2 x hx s List.mem_cons_self
  constructor
  · intro x hx hlow _
    rcases List.mem_append.1 (hsplit ▸ hx) with hx' | hx'
    · exact htogether x hx (Instant.le_antisymm (Instant.le_trans (hbefore x hx') hstart) hlow)
    · exact List.all_eq_true.1 hblock.idle x hx'
  · have hchain : samples.IsChain fun a b : Sample Float =>
        start ≤ a.time → b.time - a.time ≤ gap := by
      rw [hsplit]
      refine List.IsChain.append ?_ ?_ ?_
      · apply (List.isChain_isInfix before).imp
        intro a b hab hlow
        have hb := hbefore b (hab.subset (List.mem_cons_of_mem _ List.mem_cons_self))
        have hle : b.time ≤ a.time := Instant.le_trans hb (Instant.le_trans hstart hlow)
        exact Int.le_trans (Int.sub_nonpos_of_le hle) hgap
      · exact hblock.chain.imp fun a b hab _ => (together_eq_true_iff.1 hab).2.2
      · intro a _ b hb hlow
        obtain rfl := Option.some.inj hb
        exact Int.le_trans (Int.sub_nonpos_of_le (Instant.le_trans hstart hlow)) hgap
    apply (Series.isChain_within_iff hsorted).2
    intro a b hab hlow _
    have hpair := List.IsChain.infix hchain hab
    exact List.isChain_pair.1 hpair hlow

/-- If the engine idles throughout from some instant of a run on, the run is the last one. -/
theorem getLast?_runs_of_idleThroughout {run : Range} {start stop : Instant}
    (hsorted : Series.Ascending samples) (hwithin : ∀ x ∈ samples, x.time ≤ stop)
    (hrun : run ∈ runs ceiling gap samples) (hstart : start ≤ run.stop)
    (h : IdleThroughout ceiling gap start stop samples) :
    (runs ceiling gap samples).getLast? = some run := by
  obtain ⟨before, block, after, hblock, hspan, hlast⟩ := exists_blockAt_of_mem_runs hrun
  obtain ⟨-, x, hx, hxtime⟩ := ends_of_span? hspan
  cases after with
  | nil => exact hlast rfl
  | cons y after =>
      have hpair : [x, y] <:+: samples := by
        obtain ⟨init, rfl⟩ := List.getLast?_eq_some_iff.1 hx
        refine ⟨before ++ init, after, ?_⟩
        rw [hblock.split]
        simp
      have hymem : y ∈ samples := hpair.subset (List.mem_cons_of_mem _ List.mem_cons_self)
      have hxy : x.time ≤ y.time :=
        (List.pairwise_cons.1 (hsorted.sublist hpair.sublist)).1 y List.mem_cons_self
      rw [← hxtime] at hstart
      have hxidle : isIdle ceiling x.value = true :=
        List.all_eq_true.1 hblock.idle x (List.mem_of_getLast? hx)
      have hyidle : isIdle ceiling y.value = true :=
        h.1 y hymem (Instant.le_trans hstart hxy) (hwithin y hymem)
      have hgap : y.time - x.time ≤ gap :=
        (Series.isChain_within_iff hsorted).1 h.2 x y hpair hstart (hwithin y hymem)
      have hfalse := hblock.cut x hx y rfl
      rw [together_eq_true_iff.2 ⟨hxidle, hyidle, hgap⟩] at hfalse
      exact Bool.noConfusion hfalse

/-- While a segment is in progress the engine idles throughout, from its start to the end of the
asked range, exactly when the last run is long enough and the samples that were read at the very
start of the segment are all idle. -/
theorem idleThroughout_iff_of_isOngoing {source : Source} {now : Instant} {r : Request}
    {samples : List (Sample Float)} (hanswer : source.reply (read r) = .answer samples)
    (hsorted : Series.Ascending samples) (hwithin : ∀ x ∈ samples, x.time ≤ r.asked.stop)
    (hvalid : r.tuning.firstOutside = none) :
    ∃ segments, (Mechanism.idling.detect source now r).outcome = .answer segments ∧
      ∀ s ∈ segments, s.isOngoing = true →
        (IdleThroughout (Idling.ceiling r.tuning) (Idling.gap r.tuning) s.start r.asked.stop
            samples ↔
          (∀ run ∈ (runs (Idling.ceiling r.tuning) (Idling.gap r.tuning) samples).getLast?,
            minDuration r.tuning ≤ run.length) ∧
          ∀ x ∈ samples, x.time = s.start → isIdle (Idling.ceiling r.tuning) x.value = true) := by
  refine ⟨segments r now samples, ?_, ?_⟩
  · show ((samplePlan r now).run source).outcome = _
    rw [samplePlan, Plan.run, hanswer]
    rfl
  · intro s hs hongoing
    obtain ⟨hstill, run, hlast, hstart, hlt⟩ := exists_run_of_isOngoing hs hongoing
    have hrun := List.mem_of_getLast? hlast
    obtain ⟨hmem, hlong, hover⟩ := Activity.mem_relevant_iff.1 hrun
    have hgap : 0 ≤ Idling.gap r.tuning :=
      Tuning.maxGap_nonneg hvalid (show Tunable.maxGap.allows defaultGap = true by decide)
    have hdefault : Tunable.minSegment.allows defaultMinSegment = true := by decide
    have hmin : 0 < minDuration r.tuning := Tuning.minSegment_pos hvalid hdefault
    have hforward : ∀ run : Range, minDuration r.tuning ≤ run.length → run.start ≤ run.stop :=
      fun run hlong => Int.le_of_sub_nonneg (Int.le_trans (Int.le_of_lt hmin) hlong)
    constructor
    · intro h
      constructor
      · -- the run of the segment goes on to the end, so it is the last one
        intro last hlast'
        have hreach : s.start ≤ run.stop := by
          rw [hstart, Instant.le_iff, Instant.nanos_max]
          exact Int.max_le.2 ⟨hforward run hlong, Int.le_of_lt hover⟩
        rw [getLast?_runs_of_idleThroughout hsorted hwithin hmem hreach h,
          Option.mem_some_iff] at hlast'
        rw [← hlast']
        exact hlong
      · intro x hx hxtime
        refine h.1 x hx ?_ (hwithin x hx)
        rw [hxtime]
        exact Int.le_refl _
    · rintro ⟨hlong', htogether⟩
      obtain ⟨before, block, last, hblock, hspan, hend⟩ := exists_last_block hstill
      have hlonglast := hlong' last hend
      -- the last run passes the filters, so it is the one that the segment comes from
      rw [Activity.getLast?_relevant (pairwise_runs hsorted) hend hlonglast
        (hforward last hlonglast) hrun] at hlast
      obtain rfl := Option.some.inj hlast
      refine idleThroughout_of_blockAt hgap hsorted hblock hspan ?_ htogether
      rw [hstart, Instant.le_iff, Instant.nanos_max]
      exact Int.le_max_left _ _

/-- The engine idles for four minutes, drives, and has just come to idle again. -/
def stopAndGo : List (Sample Float) :=
  [⟨.ofSeconds 0, 800.0⟩, ⟨.ofSeconds 240, 800.0⟩, ⟨.ofSeconds 300, 2000.0⟩,
    ⟨.ofSeconds 360, 800.0⟩]

/-- The request for these seven minutes. -/
def sevenMinutes : Request := ⟨42, ⟨.ofSeconds 0, .ofSeconds 420⟩, Tuning.default⟩

/-- The only segment of these seven minutes. -/
def stopAndGoSegment : Segment := ⟨.ofSeconds 0, none, 420, true, false⟩

theorem segments_stopAndGo :
    segments sevenMinutes (.ofSeconds 420) stopAndGo = [stopAndGoSegment] := by
  decide +kernel

/-- The segment of these seven minutes is in progress all the time, with the drive inside. -/
theorem not_idleThroughout_stopAndGo :
    (Mechanism.idling.detect (Source.steady stopAndGo [] []) (.ofSeconds 420)
        sevenMinutes).outcome = .answer [stopAndGoSegment] ∧
      stopAndGoSegment.isOngoing = true ∧
      ¬ IdleThroughout (Idling.ceiling sevenMinutes.tuning) (Idling.gap sevenMinutes.tuning)
        stopAndGoSegment.start sevenMinutes.asked.stop stopAndGo := by
  refine ⟨congrArg Outcome.answer segments_stopAndGo, rfl, ?_⟩
  intro h
  have hdrive : isIdle (Idling.ceiling sevenMinutes.tuning) 2000.0 = true :=
    h.1 ⟨.ofSeconds 300, 2000.0⟩ (by simp [stopAndGo]) (by decide) (by decide)
  exact absurd hdrive (by decide +kernel)

theorem idleThroughout_iff_stopAndGo :
    ∃ segments,
      (Mechanism.idling.detect (Source.steady stopAndGo [] []) (.ofSeconds 420)
          sevenMinutes).outcome = .answer segments ∧
      ∀ s ∈ segments, s.isOngoing = true →
        (IdleThroughout (Idling.ceiling sevenMinutes.tuning) (Idling.gap sevenMinutes.tuning)
            s.start sevenMinutes.asked.stop stopAndGo ↔
          (∀ run ∈ (runs (Idling.ceiling sevenMinutes.tuning) (Idling.gap sevenMinutes.tuning)
              stopAndGo).getLast?, minDuration sevenMinutes.tuning ≤ run.length) ∧
          ∀ x ∈ stopAndGo, x.time = s.start →
            isIdle (Idling.ceiling sevenMinutes.tuning) x.value = true) :=
  idleThroughout_iff_of_isOngoing rfl (by decide) (by decide) rfl

end Telematics.Idling
