import Telematics.Detection.Activity
import Telematics.Proofs.Merging
import Telematics.Proofs.SegmentLists

/-!
# Runs of activity in order

Relevant runs are in order if the runs are, and merged ranges always are. So the segments of an
activity are well formed: cut to the asked range (`wellFormed_clip_relevant`), or from their own
starts if no stretch starts too early (`wellFormed_keepStarts_ofStretches`).
-/

set_option autoImplicit false

namespace Telematics.Activity

variable {asked : Range} {runs : List Range} {n : Int}

theorem pairwise_relevant {R : Range → Range → Prop} {minDuration : Span} (h : runs.Pairwise R) :
    (relevant asked minDuration runs).Pairwise R :=
  h.sublist (List.filter_sublist.trans List.filter_sublist)

theorem mem_relevant_iff {minDuration : Span} {r : Range} :
    r ∈ relevant asked minDuration runs ↔
      r ∈ runs ∧ minDuration ≤ r.length ∧ asked.start < r.stop := by
  rw [relevant, Range.atLeast, List.mem_filter, List.mem_filter, decide_eq_true_iff,
    decide_eq_true_iff, and_assoc]

/-- The last run is the last relevant one, if it is long enough and another run is relevant. -/
theorem getLast?_relevant {minDuration : Span} {run last : Range}
    (horder : runs.Pairwise fun a b => a.stop ≤ b.start)
    (hlast : runs.getLast? = some last) (hlong : minDuration ≤ last.length)
    (hforward : last.start ≤ last.stop) (hrun : run ∈ relevant asked minDuration runs) :
    (relevant asked minDuration runs).getLast? = some last := by
  obtain ⟨init, rfl⟩ := List.getLast?_eq_some_iff.1 hlast
  obtain ⟨hmem, -, hover⟩ := mem_relevant_iff.1 hrun
  have hreach : asked.start < last.stop := by
    rcases List.mem_append.1 hmem with hmem | hmem
    · have hle : run.stop ≤ last.start :=
        (List.pairwise_append.1 horder).2.2 run hmem last List.mem_cons_self
      exact Int.lt_of_lt_of_le hover (Instant.le_trans hle hforward)
    · rw [← List.mem_singleton.1 hmem]
      exact hover
  simp [relevant, Range.atLeast, hlong, hreach]

/-- The last run trails if it stopped at most the gap before the end of the asked range, and that
end is at most the gap ago. -/
theorem lastTrails_iff {now : Instant} {gap : Span} :
    lastTrails asked now gap runs = true ↔
      ∃ r, runs.getLast? = some r ∧ asked.stop - r.stop ≤ gap ∧ now - asked.stop ≤ gap := by
  simp only [lastTrails, Range.isTrailing, Option.any_eq_true, Bool.and_eq_true, decide_eq_true_eq]

/-- No run trails behind an end that is longer ago than the gap. -/
theorem lastTrails_eq_false {now : Instant} {gap : Span} (hpast : gap < now - asked.stop)
    (runs : List Range) : lastTrails asked now gap runs = false := by
  apply Bool.eq_false_iff.2
  intro htrails
  obtain ⟨-, -, -, hrecent⟩ := lastTrails_iff.1 htrails
  exact Int.not_le.2 hpast hrecent

/-- A run that trails at one time did so at every earlier one. -/
theorem lastTrails_of_le {now later : Instant} {gap : Span} (hle : now ≤ later)
    (h : lastTrails asked later gap runs = true) : lastTrails asked now gap runs = true := by
  obtain ⟨r, hr, htrailing, hrecent⟩ := lastTrails_iff.1 h
  exact lastTrails_iff.2 ⟨r, hr, htrailing, Int.le_trans (Int.sub_le_sub_right hle _) hrecent⟩

/-- Merged ranges are in order. -/
theorem pairwise_merge (gap : Span) (ranges : List Range) :
    (Range.merge gap ranges).Pairwise fun a b => a.stop ≤ b.start :=
  (Range.pairwise_mergeWith gap _ ranges).imp Int.le_of_lt

/-- Runs in order, cut to an asked range that is not too long. -/
theorem wellFormed_clip_relevant (lastOngoing : Bool)
    (hasked : asked.length ≤ Span.seconds Segment.longest)
    (horder : runs.Pairwise fun a b => a.stop ≤ b.start) :
    Segment.WellFormed asked n
        (clip asked (Span.seconds n) ⟨relevant asked (Span.seconds n) runs, lastOngoing⟩) ∧
      ∀ s ∈ clip asked (Span.seconds n) ⟨relevant asked (Span.seconds n) runs, lastOngoing⟩,
        s.StartsInside asked :=
  Segment.wellFormed_clip lastOngoing n hasked (pairwise_relevant horder)

/-- Stretches that start before the asked range is over and not too long before it. -/
theorem wellFormed_keepStarts_ofStretches {active : List Range} (now : Instant) (gap : Span)
    (hasked : asked.start < asked.stop)
    (hactive : ∀ a ∈ active, a.start < asked.stop ∧
      asked.stop - a.start ≤ Span.seconds Segment.longest) :
    Segment.WellFormed asked n
        ((ofStretches asked now gap (Span.seconds n) active).keepStarts asked (Span.seconds n)) ∧
      ∀ s ∈ (ofStretches asked now gap (Span.seconds n) active).keepStarts asked (Span.seconds n),
        s.KeepsStart asked := by
  apply Segment.wellFormed_keepStarts _ n hasked (pairwise_relevant (pairwise_merge gap active))
  intro r hr
  obtain ⟨hmem, -, hover⟩ := mem_relevant_iff.1 hr
  -- a merged range starts where its first member does
  have hstart := Range.forall_mem_mergeWith
    (P := fun r => r.start < asked.stop ∧ asked.stop - r.start ≤ Span.seconds Segment.longest)
    (fun _ _ ha _ => ha) hactive r hmem
  exact ⟨hover, hstart⟩

end Telematics.Activity

