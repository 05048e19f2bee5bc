import Mathlib.Algebra.Order.Field.Rat
import Mathlib.Tactic.Linarith
import Mathlib.Tactic.Positivity
import Mathlib.Tactic.Ring
import Telematics.Proofs.ClimbPositions
import Telematics.Proofs.Merging
import Telematics.Proofs.Outcomes
import Telematics.Proofs.SampleOrder
import Telematics.Proofs.SegmentLists

/-!
# How far a vehicle moves while it is recharged

Every candidate is parked: between two readings of the odometer inside it lies half a kilometre at
most. Candidates are joined across a gap when the last readings at or before both sides of it agree.
So all that a gap can hide is what the odometer has not reported yet when the gap is over: the
difference between the first reading inside the later candidate and the last one at or before its
start (`hiddenMove`). `Moved` bounds the move between any two readings of a range, `moved_extend` is
what one join adds to the bound, and `moved_of_joined` follows for a merged range by induction on
its growth. Levels are exact numbers here.
-/

set_option autoImplicit false

namespace Telematics

/-! ## Readings that do not fall -/

namespace Series

variable {α : Type} {samples : List (Sample α)}

/-- The readings at or before an instant end with the one that is found. -/
theorem valueAtOrBefore_eq_some {t : Instant} {v : α} (h : valueAtOrBefore t samples = some v) :
    ∃ z, (upTo t samples).getLast? = some z ∧ z.value = v :=
  Option.map_eq_some_iff.1 h

/-- Two values of a range are those of its first and its last reading. -/
theorem firstLast_eq_some_iff {start stop : Instant} {a b : α} :
    firstLast start stop samples = some (a, b) ↔
      ∃ x y, (within start stop samples).head? = some x ∧
        (within start stop samples).getLast? = some y ∧ x.value = a ∧ y.value = b := by
  rw [firstLast]
  cases (within start stop samples).head? with
  | none => simp
  | some x =>
      cases (within start stop samples).getLast? with
      | none => simp
      | some y => simp

end Series

namespace Recharge

variable {odometer : List (Sample Rat)}

/-- The readings are ascending, and no reading is below an earlier one. -/
structure NeverFalls (odometer : List (Sample Rat)) : Prop where
  /-- The readings are in the order of their times. -/
  ascending : Series.Ascending odometer
  /-- No reading is below an earlier one. -/
  values : odometer.Pairwise fun a b => a.value ≤ b.value

/-- The last of some readings is the greatest, and the first one is the least. -/
theorem NeverFalls.value_le_of_getLast? (h : NeverFalls odometer) {part : List (Sample Rat)}
    (hpart : part.Sublist odometer) {x y : Sample Rat} (hx : x ∈ part)
    (hy : part.getLast? = some y) : x.value ≤ y.value := by
  obtain ⟨init, rfl⟩ := List.getLast?_eq_some_iff.1 hy
  rcases List.mem_append.1 hx with hx | hx
  · exact (List.pairwise_append.1 (h.values.sublist hpart)).2.2 x hx y List.mem_cons_self
  · rw [List.mem_singleton.1 hx]

theorem NeverFalls.value_le_of_head? (h : NeverFalls odometer) {part : List (Sample Rat)}
    (hpart : part.Sublist odometer) {x y : Sample Rat} (hx : part.head? = some x) (hy : y ∈ part) :
    x.value ≤ y.value := by
  obtain ⟨later, rfl⟩ := List.head?_eq_some_iff.1 hx
  rcases List.mem_cons.1 hy with rfl | hy
  · exact le_refl _
  · exact (List.pairwise_cons.1 (h.values.sublist hpart)).1 y hy

/-- A later reading is not below an earlier one. -/
theorem NeverFalls.value_le_of_lt (h : NeverFalls odometer) {x y : Sample Rat} (hx : x ∈ odometer)
    (hy : y ∈ odometer) (hlt : x.time < y.time) : x.value ≤ y.value := by
  obtain ⟨before, after, rfl⟩ := List.append_of_mem hy
  rcases List.mem_append.1 hx with hx | hx
  · exact (List.pairwise_append.1 h.values).2.2 x hx y List.mem_cons_self
  · have hle : y.time ≤ x.time := by
      rcases List.mem_cons.1 hx with rfl | hx
      · exact Int.le_refl _
      · exact (List.pairwise_cons.1 (List.pairwise_append.1 h.ascending).2.1).1 x hx
    exact absurd hlt (Instant.not_lt.2 hle)

/-- The reading that is found at or before an instant is not below any other one. -/
theorem NeverFalls.exists_of_valueAtOrBefore (h : NeverFalls odometer) {t : Instant} {v : Rat}
    (hv : Series.valueAtOrBefore t odometer = some v) :
    (∃ z ∈ odometer, z.time ≤ t ∧ z.value = v) ∧
      ∀ y ∈ odometer, y.time ≤ t → y.value ≤ v := by
  obtain ⟨z, hz, rfl⟩ := Series.valueAtOrBefore_eq_some hv
  have hmem := (Series.mem_upTo_iff h.ascending).1 (List.mem_of_getLast? hz)
  refine ⟨⟨z, hmem.1, hmem.2, rfl⟩, ?_⟩
  intro y hy hyt
  exact h.value_le_of_getLast? (List.takeWhile_sublist _)
    ((Series.mem_upTo_iff h.ascending).2 ⟨hy, hyt⟩) hz

/-! ## Moves -/

/-- Between two readings of a range, or one before and one after it, the odometer moves by no more
than a bound. -/
def Moved (odometer : List (Sample Rat)) (r : Range) (bound : Rat) : Prop :=
  ∀ x ∈ odometer, ∀ y ∈ odometer, r.start ≤ x.time → y.time ≤ r.stop → y.value - x.value ≤ bound

/-- A parked vehicle moves by half a kilometre at most. -/
theorem NeverFalls.moved_of_parkedDuring (h : NeverFalls odometer) {r : Range}
    (hparked : parkedDuring odometer r = true) : Moved odometer r (1 / 2) := by
  intro x hx y hy hstart hstop
  by_cases hlt : y.time < x.time
  · have hle := h.value_le_of_lt hy hx hlt
    linarith
  · rw [Instant.not_lt] at hlt
    have hx' : x ∈ Series.within r.start r.stop odometer :=
      (Series.mem_within_iff h.ascending).2 ⟨hx, hstart, Instant.le_trans hlt hstop⟩
    have hy' : y ∈ Series.within r.start r.stop odometer :=
      (Series.mem_within_iff h.ascending).2 ⟨hy, Instant.le_trans hstart hlt, hstop⟩
    have hne := List.ne_nil_of_mem hx'
    have hsub := (Series.within_isInfix r.start r.stop odometer).sublist
    have hfirst := h.value_le_of_head? hsub (List.head?_eq_some_head hne) hx'
    have hlast := h.value_le_of_getLast? hsub hy' (List.getLast?_eq_some_getLast hne)
    have hends := Series.firstLast_eq_some_iff.2 ⟨_, _, List.head?_eq_some_head hne,
      List.getLast?_eq_some_getLast hne, rfl, rfl⟩
    rw [parkedDuring, hends] at hparked
    have hnoise := of_decide_eq_true hparked
    have hnoise' : ((Series.within r.start r.stop odometer).getLast hne).value -
        ((Series.within r.start r.stop odometer).head hne).value ≤ (0.5 : Rat) := hnoise
    norm_num at hnoise'
    linarith

/-- How far the first reading inside a range is above the last one at or before its start. -/
def hiddenMove (odometer : List (Sample Rat)) (r : Range) : Rat :=
  match Series.valueAtOrBefore r.start odometer,
    (Series.within r.start r.stop odometer).head? with
  | some before, some first => max 0 (first.value - before)
  | _, _ => 0

theorem hiddenMove_nonneg (odometer : List (Sample Rat)) (r : Range) :
    0 ≤ hiddenMove odometer r := by
  rw [hiddenMove]
  split
  · exact le_max_left _ _
  · exact le_refl _

/-- From a reading at or before the start of a range to the first one inside it, the odometer moves
to the reading that is found at the start, and by the hidden move. -/
theorem NeverFalls.exists_first (h : NeverFalls odometer) {r : Range} {x y : Sample Rat}
    (hx : x ∈ odometer) (hxt : x.time ≤ r.start) (hy : y ∈ Series.within r.start r.stop odometer) :
    ∃ z ∈ odometer, z.time ≤ r.start ∧ ∃ first ∈ Series.within r.start r.stop odometer,
      first.value ≤ z.value + hiddenMove odometer r := by
  have hupTo : x ∈ Series.upTo r.start odometer := (Series.mem_upTo_iff h.ascending).2 ⟨hx, hxt⟩
  have hbefore := List.getLast?_eq_some_getLast (List.ne_nil_of_mem hupTo)
  have hfirst := List.head?_eq_some_head (List.ne_nil_of_mem hy)
  obtain ⟨hz, hzt⟩ := (Series.mem_upTo_iff h.ascending).1 (List.mem_of_getLast? hbefore)
  refine ⟨_, hz, hzt, _, List.mem_of_head? hfirst, ?_⟩
  rw [hiddenMove, Series.valueAtOrBefore, hbefore, hfirst, Option.map_some]
  have hmax := le_max_right (0 : Rat)
    (((Series.within r.start r.stop odometer).head (List.ne_nil_of_mem hy)).value -
      ((Series.upTo r.start odometer).getLast (List.ne_nil_of_mem hupTo)).value)
  linarith

/-- What the odometer shows when a joined range starts, it showed before the growing one stopped. -/
theorem NeverFalls.exists_le_of_joins (h : NeverFalls odometer) {gap : Span} {r next : Range}
    (hjoins : Range.joins gap (sameOdometer odometer) r next = true) {y : Sample Rat}
    (hy : y ∈ odometer) (hyt : y.time ≤ next.start) :
    ∃ z ∈ odometer, z.time ≤ r.stop ∧ y.value ≤ z.value := by
  rcases Range.joins_iff.1 hjoins with hover | ⟨-, hsame⟩
  · exact ⟨y, hy, Instant.le_trans hyt hover, le_refl _⟩
  · rw [sameOdometer] at hsame
    cases hbefore : Series.valueAtOrBefore r.stop odometer with
    | none => simp [hbefore] at hsame
    | some before =>
        cases hafter : Series.valueAtOrBefore next.start odometer with
        | none => simp [hbefore, hafter] at hsame
        | some after =>
            rw [hbefore, hafter] at hsame
            have heq : before = after := of_decide_eq_true hsame
            obtain ⟨⟨z, hz, hzt, hzv⟩, -⟩ := h.exists_of_valueAtOrBefore hbefore
            refine ⟨z, hz, hzt, ?_⟩
            rw [hzv, heq]
            exact (h.exists_of_valueAtOrBefore hafter).2 y hy hyt

/-- One join adds the move inside the joined range and the move that the gap hides. -/
theorem NeverFalls.moved_extend (h : NeverFalls odometer) {gap : Span} {r next : Range}
    {bound : Rat} (hbound : 0 ≤ bound) (hr : Moved odometer r bound)
    (hnext : Moved odometer next (1 / 2))
    (hjoins : Range.joins gap (sameOdometer odometer) r next = true) :
    Moved odometer (r.extend next) (bound + 1 / 2 + hiddenMove odometer next) := by
  have hhidden := hiddenMove_nonneg odometer next
  have hearly : ∀ x ∈ odometer, ∀ y ∈ odometer, r.start ≤ x.time → y.time ≤ next.start →
      y.value - x.value ≤ bound := by
    intro x hx y hy hstart hyt
    obtain ⟨z, hz, hzt, hle⟩ := h.exists_le_of_joins hjoins hy hyt
    have hmove := hr x hx z hz hstart hzt
    linarith
  intro x hx y hy hstart hstop
  -- the later reading is in the growing range, in the gap, or in the joined range
  by_cases hyr : y.time ≤ r.stop
  · have hmove := hr x hx y hy hstart hyr
    linarith
  by_cases hyn : y.time ≤ next.start
  · have hmove := hearly x hx y hy hstart hyn
    linarith
  rw [Instant.not_le] at hyr hyn
  have hynext : y.time ≤ next.stop := by
    rw [Instant.le_iff, Range.stop_extend, Instant.nanos_max] at hstop
    rw [Instant.lt_iff] at hyr
    rw [Instant.le_iff]
    omega
  by_cases hxn : next.start ≤ x.time
  · have hmove := hnext x hx y hy hxn hynext
    linarith
  · rw [Instant.not_le] at hxn
    have hy' : y ∈ Series.within next.start next.stop odometer :=
      (Series.mem_within_iff h.ascending).2 ⟨hy, Int.le_of_lt hyn, hynext⟩
    obtain ⟨z, hz, hzt, first, hfirst, hle⟩ := h.exists_first hx (Int.le_of_lt hxn) hy'
    obtain ⟨hfirst', hfirstt, -⟩ := (Series.mem_within_iff h.ascending).1 hfirst
    -- from `x` to `z` before the start, then over the hidden move, then inside the joined range
    have hmove := hearly x hx z hz hstart hzt
    have hinside := hnext first hfirst' y hy hfirstt hynext
    linarith

/-- A merged range moves by half a kilometre for each member, and by the hidden moves of all members
but the first. -/
theorem NeverFalls.moved_of_joined (h : NeverFalls odometer) {gap : Span} {members : List Range}
    {m : Range} (hjoined : Range.Joined gap (sameOdometer odometer) members m)
    (hparked : ∀ r ∈ members, parkedDuring odometer r = true) :
    Moved odometer m
      (members.length / 2 + (members.tail.map (hiddenMove odometer)).sum) := by
  -- the induction is on the growth, one join after the other
  induction hjoined with
  | single r => simpa using h.moved_of_parkedDuring (hparked r List.mem_cons_self)
  | @snoc members r next hmembers hjoins ih =>
      have hr := ih fun m hm => hparked m (List.mem_append_left _ hm)
      have hnext := h.moved_of_parkedDuring (hparked next (by simp))
      have hbound :
          (0 : Rat) ≤ members.length / 2 + (members.tail.map (hiddenMove odometer)).sum := by
        have hsum : 0 ≤ (members.tail.map (hiddenMove odometer)).sum := by
          apply List.sum_nonneg
          intro d hd
          obtain ⟨r, -, rfl⟩ := List.mem_map.1 hd
          exact hiddenMove_nonneg odometer r
        positivity
      have hsum : ((members ++ [next]).length : Rat) / 2 +
          ((members ++ [next]).tail.map (hiddenMove odometer)).sum =
            members.length / 2 + (members.tail.map (hiddenMove odometer)).sum + 1 / 2 +
              hiddenMove odometer next := by
        rw [List.tail_append_of_ne_nil hmembers.ne_nil, List.map_append, List.sum_append,
          List.length_append]
        simp only [List.map_cons, List.map_nil, List.sum_cons, List.sum_nil, List.length_cons,
          List.length_nil]
        push_cast
        ring
      rw [hsum]
      exact h.moved_extend hbound hr hnext hjoins

/-! ## Answers -/

/-- There are candidates exactly where each smoothed level compares with the next one. -/
theorem isSome_candidates_iff {α : Type} [Level α] {charge odometer : List (Sample α)}
    {leastIncrease : α} {minDuration : Span} :
    (candidates charge odometer leastIncrease minDuration).isSome = true ↔
      NeighboursCompare (Series.rollingMean smoothing (charge.map Sample.value)) := by
  rw [candidates]
  show (Option.map _ (rises _)).isSome = true ↔ _
  rw [Option.isSome_map, isSome_rises_iff]

/-- There are candidates where all smoothed levels can be compared. -/
theorem isSome_candidates {α : Type} [Level α] {charge : List (Sample α)}
    (h : ∀ a ∈ Series.rollingMean smoothing (charge.map Sample.value),
      ∀ b ∈ Series.rollingMean smoothing (charge.map Sample.value), a ≤ b ∨ b < a)
    (odometer : List (Sample α)) (leastIncrease : α) (minDuration : Span) :
    (candidates charge odometer leastIncrease minDuration).isSome = true :=
  isSome_candidates_iff.2 (List.pairwise_of_forall_mem_list fun a ha b hb => h b hb a ha).isChain

/-- The vehicle is parked during each candidate. -/
theorem parkedDuring_of_mem {charge odometer : List (Sample Rat)} {leastIncrease : Rat}
    {minDuration : Span} {found : List Range}
    (hfound : candidates charge odometer leastIncrease minDuration = some found) {r : Range}
    (hr : r ∈ found) : parkedDuring odometer r = true := by
  obtain ⟨climbs, -, rfl⟩ := Option.map_eq_some_iff.1 hfound
  obtain ⟨climb, -, hclimb⟩ := List.mem_filterMap.1 hr
  rw [candidate] at hclimb
  split at hclimb
  · split at hclimb
    · simp only at hclimb
      split at hclimb
      · rename_i hparked
        obtain rfl := Option.some.inj hclimb
        exact hparked.2
      · exact absurd hclimb (by simp)
    · exact absurd hclimb (by simp)
  · exact absurd hclimb (by simp)

/-- A segment is a merged range of neighbouring candidates, cut to the asked range. Between the
first and the last reading inside it the odometer moves by half a kilometre at most for each
candidate, and by the hidden moves of all candidates but the first. -/
def BoundedMove (asked : Range) (odometer : List (Sample Rat)) (found : List Range) (s : Segment) :
    Prop :=
  ∃ members m stop,
    members <:+: found.mergeSort Range.notAfter ∧
    Range.Joined longestGap (sameOdometer odometer) members m ∧
    Segment.clipped asked m = some s ∧ s.stop = some stop ∧
    ∀ first last, Series.firstLast s.start stop odometer = some (first, last) →
      last - first ≤ members.length / 2 + (members.tail.map (hiddenMove odometer)).sum

/-- There always is an answer, and the move during each of its segments is bounded. -/
theorem boundedMove_of_mem_answer {odometer : List (Sample Rat)} (hodometer : NeverFalls odometer)
    (asked : Range) (charge : List (Sample Rat)) (leastIncrease : Rat) (minDuration : Span) :
    ∃ found segments, candidates charge odometer leastIncrease minDuration = some found ∧
      answer asked charge odometer leastIncrease minDuration = some segments ∧
      ∀ s ∈ segments, BoundedMove asked odometer found s := by
  obtain ⟨found, hfound⟩ :=
    Option.isSome_iff_exists.1 (isSome_candidates
      (fun a _ b _ => le_or_gt a b) odometer leastIncrease minDuration)
  rw [answer]
  by_cases hfew : charge.length < leastSamples
  · refine ⟨found, [], hfound, if_pos hfew, ?_⟩
    intro s hs
    exact absurd hs List.not_mem_nil
  · rw [if_neg hfew, hfound, Option.map_some]
    refine ⟨found, _, rfl, rfl, ?_⟩
    intro s hs
    obtain ⟨m, hm, hclipped⟩ := Segment.exists_clipped_of_mem_clip (List.mem_filter.1 hs).1
    obtain ⟨members, hjoined, hpart⟩ := Range.exists_joined_of_mem_mergeWith hm
    have hparked : ∀ r ∈ members, parkedDuring odometer r = true :=
      fun r hr => parkedDuring_of_mem hfound (List.mem_mergeSort.1 (hpart.subset hr))
    have hmoved := hodometer.moved_of_joined hjoined hparked
    obtain ⟨-, rfl⟩ := Segment.closed?_eq_some hclipped
    refine ⟨members, m, min m.stop asked.stop, hpart, hjoined, hclipped, rfl, ?_⟩
    intro first last hends
    obtain ⟨x, y, hx, hy, rfl, rfl⟩ := Series.firstLast_eq_some_iff.1 hends
    obtain ⟨hx, hxt, -⟩ := (Series.mem_within_iff hodometer.ascending).1 (List.mem_of_head? hx)
    obtain ⟨hy, -, hyt⟩ := (Series.mem_within_iff hodometer.ascending).1 (List.mem_of_getLast? hy)
    refine hmoved x hx y hy ?_ ?_
    · rw [Instant.le_iff, Instant.nanos_max] at hxt
      exact Int.le_trans (Int.le_max_left _ _) hxt
    · rw [Instant.le_iff, Instant.nanos_min] at hyt
      exact Int.le_trans hyt (Int.min_le_left _ _)

/-- Two charges of ten minutes, twenty minutes apart, with a drive between them. -/
def twoCharges : List (Sample Rat) :=
  ((List.range 10).map fun i => ⟨.ofSeconds (60 * i), 10 + 2 * i⟩) ++
    (List.range 10).map fun i => ⟨.ofSeconds (1800 + 60 * i), 8 + 2 * i⟩

/-- An odometer that reports the drive only when the second charge has begun. -/
def lateOdometer : List (Sample Rat) := [⟨.ofSeconds 0, 100⟩, ⟨.ofSeconds 2160, 130⟩]

/-- The two hours around the two charges. -/
def chargedHours : Range := ⟨.ofSeconds 0, .ofSeconds 7200⟩

/-- The candidate in the first charge. -/
def firstRise : Range := ⟨.ofSeconds 0, .ofSeconds 240⟩

/-- The candidate in the second charge. -/
def secondRise : Range := ⟨.ofSeconds 2100, .ofSeconds 2340⟩

/-- One recharge from the start of the first to the end of the second candidate. -/
def spanningRecharge : Segment := ⟨.ofSeconds 0, some (.ofSeconds 2340), 2340, false, false⟩

theorem neverFalls_lateOdometer : NeverFalls lateOdometer := ⟨by decide, by decide +kernel⟩

theorem candidates_twoCharges :
    candidates twoCharges lateOdometer 1 (Span.seconds 60) = some [firstRise, secondRise] := by
  decide +kernel

theorem answer_twoCharges :
    answer chargedHours twoCharges lateOdometer 1 (Span.seconds 60) = some [spanningRecharge] := by
  have hsorted : [firstRise, secondRise].mergeSort Range.notAfter = [firstRise, secondRise] :=
    Range.mergeSort_eq_self (by decide)
  rw [answer, candidates_twoCharges]
  simp only [Option.map_some, segmentsOf, Range.mergeWith, hsorted]
  decide +kernel

/-- A recharge of two candidates spans a drive of thirty kilometres: the gap between them is
bridged, since the odometer shows the old reading on both sides. -/
theorem spans_drive_twoCharges :
    NeverFalls lateOdometer ∧ Series.Ascending twoCharges ∧
      candidates twoCharges lateOdometer 1 (Span.seconds 60) = some [firstRise, secondRise] ∧
      answer chargedHours twoCharges lateOdometer 1 (Span.seconds 60) = some [spanningRecharge] ∧
      Range.Joined longestGap (sameOdometer lateOdometer) [firstRise, secondRise]
        (firstRise.extend secondRise) ∧
      Segment.clipped chargedHours (firstRise.extend secondRise) = some spanningRecharge ∧
      Series.firstLast spanningRecharge.start (.ofSeconds 2340) lateOdometer = some (100, 130) ∧
      ¬ (130 - 100 : Rat) ≤ [firstRise, secondRise].length / 2 := by
  refine ⟨neverFalls_lateOdometer, by decide, candidates_twoCharges, answer_twoCharges,
    ?_, ?_, ?_, ?_⟩
  · exact .snoc (.single firstRise) (by decide +kernel)
  · decide
  · decide +kernel
  · norm_num

theorem boundedMove_twoCharges :
    NeverFalls lateOdometer ∧
      ∃ found segments, candidates twoCharges lateOdometer 1 (Span.seconds 60) = some found ∧
        answer chargedHours twoCharges lateOdometer 1 (Span.seconds 60) = some segments ∧
        ∀ s ∈ segments, BoundedMove chargedHours lateOdometer found s :=
  ⟨neverFalls_lateOdometer,
    boundedMove_of_mem_answer neverFalls_lateOdometer chargedHours twoCharges 1 (Span.seconds 60)⟩

end Recharge

end Telematics
