import Mathlib.Data.List.Chain
import Telematics.Detection.Recharge
import Telematics.Proofs.Merging

/-!
# Merging with a test on gaps

A test can only keep ranges apart. What is merged with a test lies between what is merged where
ranges touch and what is merged across every short gap: each range of the finer list lies within
exactly one of the coarser list, whatever the test says and however the ranges overlap across a gap
that it does not let pass.

A test that `LooksAtGap` compares only the stop of one range with the start of the next one. Then it
does not matter whether ranges that touch are merged before (`mergeWith_merge_zero`), and so the
test is asked about neighbours of what is merged where ranges touch: two of them are in one range
exactly when the gap between them is short and passes. `mergeWith_sandwich` puts all this together.
-/

set_option autoImplicit false

namespace Telematics.Range

variable {gap : Span} {passes : Range → Range → Bool} {ranges : List Range}

/-! ## Between touching ranges and short gaps -/

/-- Ranges that are over one before the other are apart by no gap. -/
theorem Before.apart {a b : Range} (h : a.Before b) : a.Apart 0 b := by
  refine ⟨h, ?_⟩
  rw [Int.add_zero]
  exact h

/-- Such ranges are joined exactly when the gap is short enough and the test lets it pass. -/
theorem Before.joins_iff {a b : Range} (h : a.Before b) :
    joins gap passes a b = true ↔ a.gapTo b ≤ gap ∧ passes a b = true := by
  rw [Range.joins_iff, gapTo, Instant.sub_le_iff]
  exact or_iff_right (Instant.not_le.2 h)

/-- What is merged where ranges touch lies whole in what is merged across gaps. -/
theorem exists_within_of_mem_merge_zero (hforward : ∀ r ∈ ranges, r.start ≤ r.stop) {m : Range}
    (hm : m ∈ merge 0 ranges) : ∃ q ∈ mergeWith gap passes ranges, m.Within q := by
  obtain ⟨members, hjoined, hpart⟩ := exists_joined_of_mem_mergeWith hm
  have hapart : (mergeWith gap passes ranges).Pairwise fun a b => a.Apart 0 b :=
    (pairwise_mergeWith gap passes ranges).imp Before.apart
  refine hjoined.exists_within (Int.le_refl 0) hapart fun r hr => ?_
  have hmem : r ∈ ranges := List.mem_mergeSort.1 (hpart.subset hr)
  exact ⟨hforward r hmem, exists_within_mergeWith hmem⟩

/-- What is merged with a test lies within what is merged without it. -/
theorem exists_within_of_mem_mergeWith (hforward : ∀ r ∈ ranges, r.start ≤ r.stop) {q : Range}
    (hq : q ∈ mergeWith gap passes ranges) : ∃ m ∈ merge gap ranges, q.Within m := by
  obtain ⟨members, hjoined, hpart⟩ := exists_joined_of_mem_mergeWith hq
  refine hjoined.exists_within (Int.le_refl gap) (pairwise_merge_apart gap ranges) fun r hr => ?_
  have hmem : r ∈ ranges := List.mem_mergeSort.1 (hpart.subset hr)
  exact ⟨hforward r hmem, exists_within_mergeWith hmem⟩

/-! ## Tests that look at the gap -/

/-- A test looks only at the gap between two ranges: at the stop of the first one and the start of
the second one. -/
def LooksAtGap (passes : Range → Range → Bool) : Prop :=
  ∀ a b c d : Range, a.stop = c.stop → b.start = d.start → passes a b = passes c d

/-- Then so does joining. -/
theorem LooksAtGap.joins_eq (h : LooksAtGap passes) {a b c d : Range} (hstop : a.stop = c.stop)
    (hstart : b.start = d.start) : joins gap passes a b = joins gap passes c d := by
  rw [joins, joins, gapTo, gapTo, hstop, hstart, h a b c d hstop hstart]

/-- The first range that the walk gives is the one that was growing, grown farther. -/
theorem exists_coalesce_eq_cons (gap : Span) (passes : Range → Range → Bool) (r : Range)
    (rest : List Range) :
    ∃ m later, coalesce gap passes r rest = m :: later ∧ m.start = r.start ∧ r.stop ≤ m.stop := by
  induction rest generalizing r with
  | nil => exact ⟨r, [], rfl, rfl, Int.le_refl _⟩
  | cons next rest ih =>
      rw [coalesce]
      split
      · obtain ⟨m, later, heq, hstart, hstop⟩ := ih (r.extend next)
        exact ⟨m, later, heq, hstart, Instant.le_trans (Int.le_max_left _ _) hstop⟩
      · exact ⟨r, _, rfl, rfl, Int.le_refl _⟩

/-- Neighbours among the ranges that the walk gives are not joined. -/
theorem isChain_coalesce (hlooks : LooksAtGap passes) (r : Range) (rest : List Range) :
    (coalesce gap passes r rest).IsChain fun x y => joins gap passes x y = false := by
  induction rest generalizing r with
  | nil => exact List.isChain_singleton r
  | cons next rest ih =>
      cases hj : joins gap passes r next with
      | true =>
          simp only [coalesce, hj, if_true]
          exact ih (r.extend next)
      | false =>
          simp only [coalesce, hj, Bool.false_eq_true, if_false]
          -- the range after `r` has grown from `next`, and starts where that does
          obtain ⟨m, later, heq, hstart, -⟩ := exists_coalesce_eq_cons gap passes next rest
          have hchain := ih next
          rw [heq] at hchain ⊢
          refine List.isChain_cons_cons.2 ⟨?_, hchain⟩
          rw [← hj]
          exact hlooks.joins_eq rfl hstart

theorem isChain_mergeWith (hlooks : LooksAtGap passes) (ranges : List Range) :
    (mergeWith gap passes ranges).IsChain fun x y => joins gap passes x y = false := by
  rw [mergeWith]
  cases ranges.mergeSort notAfter with
  | nil => exact List.IsChain.nil
  | cons r rest => exact isChain_coalesce hlooks r rest

/-- A range grows by the touching ranges after it as it does by what these are merged to, wherever
it starts. -/
theorem exists_coalesce_zero (gap : Span) (hlooks : LooksAtGap passes) (r : Range)
    {rest : List Range} (hforward : ∀ x ∈ rest, x.start ≤ x.stop) :
    ∃ m later, coalesce 0 (fun _ _ => true) r rest = m :: later ∧ m.start = r.start ∧
      r.stop ≤ m.stop ∧
      ∀ s, coalesce gap passes ⟨s, m.stop⟩ later = coalesce gap passes ⟨s, r.stop⟩ rest := by
  induction rest generalizing r with
  | nil => exact ⟨r, [], rfl, rfl, Int.le_refl _, fun _ => rfl⟩
  | cons next rest ih =>
      have hnext : next.start ≤ next.stop := hforward next List.mem_cons_self
      have hrest : ∀ x ∈ rest, x.start ≤ x.stop := fun x hx =>
        hforward x (List.mem_cons_of_mem _ hx)
      cases htouch : joins 0 (fun _ _ => true) r next with
      | true =>
          -- ranges that touch are joined whatever the test says
          have hle : next.start ≤ r.stop := by
            rcases joins_iff.1 htouch with hle | ⟨hle, -⟩
            · exact hle
            · rwa [Int.add_zero] at hle
          obtain ⟨m, later, heq, hstart, hstop, hgrow⟩ := ih (r.extend next) hrest
          refine ⟨m, later, ?_, hstart, Instant.le_trans (Int.le_max_left _ _) hstop, fun s => ?_⟩
          · simpa only [coalesce, htouch, if_true] using heq
          · have hj : joins gap passes ⟨s, r.stop⟩ next = true := joins_iff.2 (Or.inl hle)
            simp only [coalesce, hj, if_true]
            exact hgrow s
      | false =>
          have hbefore : r.stop ≤ next.stop :=
            Instant.le_trans (Int.le_of_lt (before_of_joins_eq_false htouch)) hnext
          obtain ⟨m, later, heq, hstart, hstop, hgrow⟩ := ih next hrest
          refine ⟨r, m :: later, ?_, rfl, Int.le_refl _, fun s => ?_⟩
          · simp only [coalesce, htouch, Bool.false_eq_true, if_false, heq]
          · have hsame : joins gap passes ⟨s, r.stop⟩ m = joins gap passes ⟨s, r.stop⟩ next :=
              hlooks.joins_eq rfl hstart
            cases hj : joins gap passes ⟨s, r.stop⟩ next with
            | true =>
                simp only [coalesce, hsame, hj, if_true, extend,
                  Instant.max_eq_right (Instant.le_trans hbefore hstop),
                  Instant.max_eq_right hbefore]
                exact hgrow s
            | false =>
                simp only [coalesce, hsame, hj, Bool.false_eq_true, if_false]
                rw [← hgrow next.start, ← hstart]

/-- What is merged is in order. -/
theorem mergeSort_merge_zero (hforward : ∀ r ∈ ranges, r.start ≤ r.stop) :
    (merge 0 ranges).mergeSort notAfter = merge 0 ranges := by
  apply mergeSort_eq_self
  apply (pairwise_mergeWith 0 (fun _ _ => true) ranges).imp_of_mem
  intro a b ha _ hab
  exact Int.lt_of_le_of_lt (start_le_stop_of_mem_mergeWith hforward a ha) hab

/-- Ranges that touch may be merged first. -/
theorem mergeWith_merge_zero (gap : Span) (hlooks : LooksAtGap passes)
    (hforward : ∀ r ∈ ranges, r.start ≤ r.stop) :
    mergeWith gap passes (merge 0 ranges) = mergeWith gap passes ranges := by
  rw [mergeWith, mergeSort_merge_zero hforward, merge, mergeWith, mergeWith]
  have hsorted : ∀ r ∈ ranges.mergeSort notAfter, r.start ≤ r.stop := fun r hr =>
    hforward r (List.mem_mergeSort.1 hr)
  cases h : ranges.mergeSort notAfter with
  | nil => rfl
  | cons r rest =>
      rw [h] at hsorted
      obtain ⟨m, later, heq, hstart, -, hgrow⟩ :=
        exists_coalesce_zero gap hlooks r fun x hx =>
          hsorted x (List.mem_cons_of_mem _ hx)
      simp only [heq]
      rw [← hgrow r.start, ← hstart]

/-- The range that grows takes in what it has grown from. -/
theorem exists_within_coalesce (gap : Span) (passes : Range → Range → Bool) (r : Range)
    (rest : List Range) : ∃ q ∈ coalesce gap passes r rest, r.Within q := by
  obtain ⟨m, later, heq, hstart, hstop⟩ := exists_coalesce_eq_cons gap passes r rest
  exact ⟨m, heq ▸ List.mem_cons_self, Int.le_of_eq (congrArg Instant.nanos hstart), hstop⟩

/-- A range lies within no range that was over before it. -/
theorem not_within_of_stop_lt {r y : Range} {s : Instant} (hry : r.Before y)
    (hy : y.start ≤ y.stop) : ¬ y.Within ⟨s, r.stop⟩ := fun hwithin =>
  Instant.not_lt.2 (Instant.le_trans hy hwithin.2) hry

/-- Among ranges that are over one before the other, two neighbours lie within one of the ranges
that the walk gives exactly when the gap is short and passes. The range that grows may have started
earlier. -/
theorem isChain_within_coalesce (hlooks : LooksAtGap passes) {r : Range} {rest : List Range}
    {s : Instant} (hs : s ≤ r.start) (hforward : ∀ x ∈ r :: rest, x.start ≤ x.stop)
    (hbefore : (r :: rest).Pairwise Before) :
    (r :: rest).IsChain fun x y =>
      (∃ q ∈ coalesce gap passes ⟨s, r.stop⟩ rest, x.Within q ∧ y.Within q) ↔
        x.gapTo y ≤ gap ∧ passes x y = true := by
  induction rest generalizing r s with
  | nil => exact List.isChain_singleton r
  | cons next rest ih =>
      obtain ⟨hr, hrest⟩ := List.pairwise_cons.1 hbefore
      have hforward' : ∀ x ∈ next :: rest, x.start ≤ x.stop := fun x hx =>
        hforward x (List.mem_cons_of_mem _ hx)
      have hrnext : r.Before next := hr next List.mem_cons_self
      have hrforward : r.start ≤ r.stop := hforward r List.mem_cons_self
      have hle : r.stop ≤ next.stop :=
        Instant.le_trans (Int.le_of_lt hrnext) (hforward' next List.mem_cons_self)
      have hsame : joins gap passes ⟨s, r.stop⟩ next = joins gap passes r next :=
        hlooks.joins_eq rfl rfl
      cases hj : joins gap passes r next with
      | true =>
          simp only [coalesce, hsame, hj, if_true, extend, Instant.max_eq_right hle]
          have hsnext : s ≤ next.start :=
            Instant.le_trans hs (Instant.le_trans hrforward (Int.le_of_lt hrnext))
          refine List.isChain_cons_cons.2 ⟨?_, ih hsnext hforward' hrest⟩
          obtain ⟨q, hq, hwithin⟩ := exists_within_coalesce gap passes ⟨s, next.stop⟩ rest
          have hrgrown : r.Within ⟨s, next.stop⟩ := ⟨hs, hle⟩
          have hnextgrown : next.Within ⟨s, next.stop⟩ := ⟨hsnext, Int.le_refl _⟩
          exact iff_of_true ⟨q, hq, hrgrown.trans hwithin, hnextgrown.trans hwithin⟩
            (hrnext.joins_iff.1 hj)
      | false =>
          simp only [coalesce, hsame, hj, Bool.false_eq_true, if_false]
          -- nothing after `r` lies within the range that has stopped growing
          have hnot : ∀ y ∈ next :: rest, ¬ y.Within ⟨s, r.stop⟩ := fun y hy =>
            not_within_of_stop_lt (hr y hy) (hforward' y hy)
          have hlater : ∀ q ∈ coalesce gap passes next rest, next.start ≤ q.start := by
            apply start_le_of_mem_coalesce
            apply hrest.imp_of_mem
            intro a b ha _ hab
            exact Int.le_of_lt (Int.lt_of_le_of_lt (hforward' a ha) hab)
          have hgap : ¬ (r.gapTo next ≤ gap ∧ passes r next = true) := by
            rw [← hrnext.joins_iff, hj]
            exact Bool.false_ne_true
          refine List.isChain_cons_cons.2 ⟨iff_of_false ?_ hgap, ?_⟩
          · rintro ⟨q, hq, hrq, hnextq⟩
            rcases List.mem_cons.1 hq with rfl | hq
            · exact hnot next List.mem_cons_self hnextq
            · exact Instant.not_lt.2
                (Instant.le_trans (hlater q hq) (Instant.le_trans hrq.1 hrforward)) hrnext
          · apply (ih (Int.le_refl _) hforward' hrest).imp_of_mem_imp
            intro x y hx _ hiff
            rw [← hiff, List.exists_mem_cons_iff]
            exact or_iff_right fun h => hnot x hx h.1

/-- So it is for what is merged where ranges touch. -/
theorem isChain_merge_zero (hlooks : LooksAtGap passes)
    (hforward : ∀ r ∈ ranges, r.start ≤ r.stop) :
    (merge 0 ranges).IsChain fun x y =>
      (∃ q ∈ mergeWith gap passes ranges, x.Within q ∧ y.Within q) ↔
        x.gapTo y ≤ gap ∧ passes x y = true := by
  rw [← mergeWith_merge_zero gap hlooks hforward]
  have hmerged : ∀ m ∈ merge 0 ranges, m.start ≤ m.stop := start_le_stop_of_mem_mergeWith hforward
  have hbefore : (merge 0 ranges).Pairwise Before := pairwise_mergeWith 0 _ ranges
  rw [mergeWith, mergeSort_merge_zero hforward]
  cases h : merge 0 ranges with
  | nil => exact List.IsChain.nil
  | cons r rest =>
      rw [h] at hmerged hbefore
      exact isChain_within_coalesce hlooks (Int.le_refl _) hmerged hbefore

/-- The test of the odometer looks at the gap. -/
theorem looksAtGap_sameOdometer {α : Type} [Level α] (odometer : List (Sample α)) :
    LooksAtGap (Recharge.sameOdometer odometer) := by
  intro a b c d hstop hstart
  rw [Recharge.sameOdometer, Recharge.sameOdometer, hstop, hstart]

/-- A test can only refine what is merged: it lies between what is merged where ranges touch and
what is merged across every short gap, and its ranges are over one before the other. If the test
looks at the gap, as that of the odometer does, every gap that is left is too long or does not pass,
and neighbours of what is merged where ranges touch are in one range exactly when the gap is short
and passes. -/
theorem mergeWith_sandwich (gap : Span) (passes : Range → Range → Bool)
    (hforward : ∀ r ∈ ranges, r.start ≤ r.stop) :
    (∀ m ∈ merge 0 ranges, ∃! q, q ∈ mergeWith gap passes ranges ∧ m.Within q) ∧
      (∀ q ∈ mergeWith gap passes ranges, ∃! m, m ∈ merge gap ranges ∧ q.Within m) ∧
      (mergeWith gap passes ranges).Pairwise Before ∧
      (LooksAtGap passes →
        ((mergeWith gap passes ranges).IsChain fun x y =>
          gap < x.gapTo y ∨ passes x y = false) ∧
        (merge 0 ranges).IsChain fun x y =>
          (∃ q ∈ mergeWith gap passes ranges, x.Within q ∧ y.Within q) ↔
            x.gapTo y ≤ gap ∧ passes x y = true) ∧
      ∀ odometer : List (Sample Float), LooksAtGap (Recharge.sameOdometer odometer) := by
  have hbefore : (mergeWith gap passes ranges).Pairwise Before :=
    pairwise_mergeWith gap passes ranges
  refine ⟨fun m hm => ?_, fun q hq => ?_, hbefore, fun hlooks => ⟨?_, ?_⟩,
    looksAtGap_sameOdometer⟩
  · obtain ⟨q, hq, hmq⟩ := exists_within_of_mem_merge_zero hforward hm
    refine ⟨q, ⟨hq, hmq⟩, ?_⟩
    rintro p ⟨hp, hmp⟩
    exact eq_of_within (hbefore.imp Before.apart)
      (start_le_stop_of_mem_mergeWith hforward m hm) hp hq hmp hmq
  · obtain ⟨m, hm, hqm⟩ := exists_within_of_mem_mergeWith hforward hq
    refine ⟨m, ⟨hm, hqm⟩, ?_⟩
    rintro p ⟨hp, hqp⟩
    exact eq_of_within (pairwise_merge_apart gap ranges)
      (start_le_stop_of_mem_mergeWith hforward q hq) hp hm hqp hqm
  · apply (isChain_mergeWith hlooks ranges).imp
    intro x y hnot
    simp only [joins, Bool.or_eq_false_iff, Bool.and_eq_false_iff, decide_eq_false_iff_not,
      Int.not_le] at hnot
    exact hnot.2
  · exact isChain_merge_zero hlooks hforward

/-- Two ranges that overlap, and after a gap two more with another one close by. -/
def stops : List Range :=
  [⟨.ofSeconds 0, .ofSeconds 60⟩, ⟨.ofSeconds 30, .ofSeconds 90⟩,
    ⟨.ofSeconds 150, .ofSeconds 200⟩, ⟨.ofSeconds 180, .ofSeconds 240⟩,
    ⟨.ofSeconds 300, .ofSeconds 360⟩]

/-- The odometer says that the first gap was a drive and the second one was none. -/
def drivenBetween : List (Sample Float) := [⟨.ofSeconds 0, 100.0⟩, ⟨.ofSeconds 120, 105.0⟩]

theorem mergeWith_stops :
    mergeWith (Span.seconds 600) (Recharge.sameOdometer drivenBetween) stops =
        [⟨.ofSeconds 0, .ofSeconds 90⟩, ⟨.ofSeconds 150, .ofSeconds 360⟩] ∧
      merge 0 stops = [⟨.ofSeconds 0, .ofSeconds 90⟩, ⟨.ofSeconds 150, .ofSeconds 240⟩,
        ⟨.ofSeconds 300, .ofSeconds 360⟩] := by
  have hsorted : stops.mergeSort notAfter = stops := mergeSort_eq_self (by decide)
  rw [merge, mergeWith, mergeWith, hsorted]
  decide +kernel

theorem mergeWith_sandwich_stops :
    (∀ r ∈ stops, r.start ≤ r.stop) ∧ LooksAtGap (Recharge.sameOdometer drivenBetween) ∧
      (∃! q, q ∈ [⟨.ofSeconds 0, .ofSeconds 90⟩, ⟨.ofSeconds 150, .ofSeconds 360⟩] ∧
        Within ⟨.ofSeconds 300, .ofSeconds 360⟩ q) ∧
      Recharge.sameOdometer drivenBetween ⟨.ofSeconds 0, .ofSeconds 90⟩
        ⟨.ofSeconds 150, .ofSeconds 360⟩ = false ∧
      Recharge.sameOdometer drivenBetween ⟨.ofSeconds 150, .ofSeconds 240⟩
        ⟨.ofSeconds 300, .ofSeconds 360⟩ = true := by
  have hforward : ∀ r ∈ stops, r.start ≤ r.stop := by decide
  obtain ⟨hcoarser, -, -, hgaps, hlooks⟩ := mergeWith_sandwich (Span.seconds 600)
    (Recharge.sameOdometer drivenBetween) hforward
  obtain ⟨hleft, hjoined⟩ := hgaps (hlooks drivenBetween)
  obtain ⟨hmerged, htouching⟩ := mergeWith_stops
  rw [hmerged, htouching] at hcoarser hjoined
  rw [hmerged] at hleft
  refine ⟨hforward, hlooks drivenBetween, ?_, ?_, ?_⟩
  · exact hcoarser _ (List.mem_cons_of_mem _ (List.mem_cons_of_mem _ List.mem_cons_self))
  · -- the gap of a minute is short
    exact (List.isChain_pair.1 hleft).resolve_left (by decide)
  · obtain ⟨-, hlast⟩ := List.isChain_cons_cons.1 hjoined
    refine ((List.isChain_pair.1 hlast).1 ⟨⟨.ofSeconds 150, .ofSeconds 360⟩, ?_, ?_, ?_⟩).2
    · exact List.mem_cons_of_mem _ List.mem_cons_self
    · exact ⟨Int.le_refl _, by decide⟩
    · exact ⟨by decide, Int.le_refl _⟩

end Telematics.Range
