import Telematics.Segment

/-!
# Lists of segments

`Consistent` says that the flags and the duration of one segment fit its ends and the asked range,
`Precedes` that one segment is over before the next one starts. `WellFormed` puts both together with
the shortest duration.

The two builders of segments differ in what they do with one range; the rest is shared. `Sound` is
what the rules of a builder owe for one range, and `ordered_ofRanges` is what follows for a list of
ranges in order. `wellFormed_clip` and `wellFormed_keepStarts` settle it for the two builders.
-/

set_option autoImplicit false

namespace Telematics

namespace Span

/-- A length of so many seconds at least has so many whole seconds. -/
theorem le_wholeSeconds {n d : Int} (hn : 0 ≤ n) (h : n * 1000000000 ≤ d) :
    n ≤ wholeSeconds d := by
  rw [wholeSeconds, Int.tdiv_eq_ediv_of_nonneg (by omega)]
  omega

/-- A length that is not negative has no more whole seconds than a bound of its seconds. -/
theorem wholeSeconds_le {n d : Int} (h0 : 0 ≤ d) (h : d ≤ n * 1000000000) :
    0 ≤ wholeSeconds d ∧ wholeSeconds d ≤ n := by
  rw [wholeSeconds, Int.tdiv_eq_ediv_of_nonneg h0]
  omega

/-- Whole seconds compare as lengths do. -/
theorem seconds_le_seconds_iff {m n : Int} : seconds m ≤ seconds n ↔ m ≤ n := by
  have h : seconds m ≤ seconds n ↔ m * 1000000000 ≤ n * 1000000000 := Iff.rfl
  rw [h]
  omega

end Span

namespace Segment

/-- The flag, the duration and the ends of a segment fit together, and the segment reaches into the
asked range. -/
def Consistent (asked : Range) (s : Segment) : Prop :=
  match s.stop with
  | some stop =>
      s.isOngoing = false ∧ s.start < stop ∧ stop ≤ asked.stop ∧ asked.start < stop ∧
        s.durationSeconds = (stop - s.start).wholeSeconds
  | none =>
      s.isOngoing = true ∧ s.start < asked.stop ∧
        s.durationSeconds = (asked.stop - s.start).wholeSeconds

/-- The first segment is closed, starts earlier, and is over when the second one starts. -/
def Precedes (s t : Segment) : Prop :=
  s.start < t.start ∧ ∃ stop, s.stop = some stop ∧ stop ≤ t.start

/-- Segments are consistent, in order, and not shorter than so many seconds. -/
structure WellFormed (asked : Range) (shortest : Int) (segments : List Segment) : Prop where
  /-- Each segment fits the asked range. -/
  consistent : ∀ s ∈ segments, s.Consistent asked
  /-- Each segment is over before a later one starts; so only the last one can be in progress. -/
  ordered : segments.Pairwise Precedes
  /-- No segment is reported as shorter. -/
  longEnough : ∀ s ∈ segments, shortest ≤ s.durationSeconds

/-- Where 32 bits hold the whole seconds of a length, the duration is exact. -/
theorem durationOf_eq_wholeSeconds {d : Span} (h0 : 0 ≤ d) (h : d ≤ Span.seconds longest) :
    durationOf d = d.wholeSeconds := by
  obtain ⟨hlow, hhigh⟩ := Span.wholeSeconds_le h0 h
  exact if_pos ⟨by omega, hhigh⟩

/-- A length that is not negative is reported as its whole seconds, as far as they fit. -/
theorem durationOf_eq_min {d : Span} (h0 : 0 ≤ d) : durationOf d = min d.wholeSeconds longest := by
  have hpos : 0 ≤ d.wholeSeconds := Int.tdiv_nonneg h0 (by decide)
  by_cases hfits : d.wholeSeconds ≤ longest
  · rw [Int.min_eq_left hfits]
    exact if_pos ⟨by omega, hfits⟩
  · rw [Int.min_eq_right (Int.le_of_lt (Int.not_le.1 hfits))]
    exact if_neg fun h => hfits h.2

/-- A longer length is not reported as a shorter duration. -/
theorem durationOf_le_durationOf {d e : Span} (h0 : 0 ≤ d) (h : d ≤ e) :
    durationOf d ≤ durationOf e := by
  have hle : d.wholeSeconds ≤ e.wholeSeconds := by
    rw [Span.wholeSeconds, Span.wholeSeconds, Int.tdiv_eq_ediv_of_nonneg h0,
      Int.tdiv_eq_ediv_of_nonneg (Int.le_trans h0 h)]
    exact Int.ediv_le_ediv (by decide) h
  rw [durationOf_eq_min h0, durationOf_eq_min (Int.le_trans h0 h)]
  exact Int.le_min.2 ⟨Int.le_trans (Int.min_le_left _ _) hle, Int.min_le_right _ _⟩

/-- A duration is at least so many seconds if the length is. -/
theorem seconds_le_seconds_durationOf_iff {n : Int} {d : Span} (hn : n ≤ longest) (h0 : 0 ≤ d) :
    Span.seconds n ≤ Span.seconds (durationOf d) ↔ Span.seconds n ≤ d := by
  have hwhole : n ≤ d.wholeSeconds ↔ Span.seconds n ≤ d := by
    rw [Span.wholeSeconds, Int.tdiv_eq_ediv_of_nonneg h0]
    exact Int.le_ediv_iff_mul_le (by decide)
  rw [Span.seconds_le_seconds_iff, durationOf_eq_min h0, Int.le_min, hwhole]
  exact and_iff_left hn

theorem closed?_eq_some {start stop : Instant} {before : Bool} {s : Segment}
    (h : closed? start stop before = some s) :
    start < stop ∧ s = ⟨start, some stop, durationOf (stop - start), false, before⟩ := by
  rw [closed?] at h
  split at h
  · rename_i hlt
    exact ⟨hlt, (Option.some.inj h).symm⟩
  · exact absurd h (by simp)

/-- The segments of a list of ranges: the rule for inner ranges on all but the last one, then the
rule for the last one. -/
theorem ofRanges_eq (inner last : Range → Option Segment) (ranges : List Range) :
    ofRanges inner last ranges =
      ranges.dropLast.filterMap inner ++ (ranges.getLast?.bind last).toList := by
  induction ranges with
  | nil => rfl
  | cons r rest ih =>
      cases rest with
      | nil => simp [ofRanges]
      | cons next rest =>
          rw [ofRanges, ih, List.dropLast_cons_cons, List.getLast?_cons_cons, ← List.append_assoc]
          congr 1
          cases h : inner r with
          | none => simp [h]
          | some s => simp [h]

/-- One rule for all ranges. -/
theorem ofRanges_self (rule : Range → Option Segment) (ranges : List Range) :
    ofRanges rule rule ranges = ranges.filterMap rule := by
  induction ranges with
  | nil => rfl
  | cons r rest ih =>
      cases rest with
      | nil => cases h : rule r <;> simp [ofRanges, h]
      | cons next rest =>
          rw [ofRanges, ih]
          cases h : rule r <;> simp [h]

theorem mem_ofRanges_iff {inner last : Range → Option Segment} {ranges : List Range}
    {s : Segment} :
    s ∈ ofRanges inner last ranges ↔
      (∃ r ∈ ranges.dropLast, inner r = some s) ∨
        ∃ r, ranges.getLast? = some r ∧ last r = some s := by
  rw [ofRanges_eq, List.mem_append, List.mem_filterMap, Option.mem_toList, Option.bind_eq_some_iff]

/-- A segment built from a range is consistent and lies inside the range. -/
structure Builds (asked r : Range) (s : Segment) : Prop where
  /-- The segment fits the asked range. -/
  consistent : s.Consistent asked
  /-- It starts no earlier than the range. -/
  start_le : r.start ≤ s.start
  /-- If it is closed, it stops no later than the range. -/
  stop_le : ∀ stop, s.stop = some stop → stop ≤ r.stop

/-- A closed segment of one range precedes a segment of a later range. -/
theorem Builds.precedes {asked a b : Range} {s t : Segment} (hs : Builds asked a s)
    (hclosed : s.isOngoing = false) (ht : Builds asked b t) (hab : a.stop ≤ b.start) :
    s.Precedes t := by
  have hcons := hs.consistent
  rw [Consistent] at hcons
  cases hstop : s.stop with
  | none =>
      rw [hstop] at hcons
      rw [hcons.1] at hclosed
      exact Bool.noConfusion hclosed
  | some stop =>
      rw [hstop] at hcons
      have hle : stop ≤ t.start :=
        Int.le_trans (hs.stop_le stop hstop) (Int.le_trans hab ht.start_le)
      exact ⟨Int.lt_of_lt_of_le hcons.2.1 hle, stop, hstop, hle⟩

/-- What two rules owe for one range: the rule for inner ranges builds closed segments, the rule for
the last one any. -/
structure Sound (asked : Range) (inner last : Range → Option Segment) (r : Range) : Prop where
  /-- The rule for inner ranges. -/
  inner : ∀ s, inner r = some s → Builds asked r s ∧ s.isOngoing = false
  /-- The rule for the last range. -/
  last : ∀ s, last r = some s → Builds asked r s

/-- Sound rules build consistent segments in order from ranges in order. -/
theorem ordered_ofRanges {asked : Range} {inner last : Range → Option Segment}
    {ranges : List Range} (horder : ranges.Pairwise fun a b => a.stop ≤ b.start)
    (hsound : ∀ r ∈ ranges, Sound asked inner last r) :
    (∀ s ∈ ofRanges inner last ranges, s.Consistent asked) ∧
      (ofRanges inner last ranges).Pairwise Precedes := by
  have hinner : ∀ r ∈ ranges.dropLast, r ∈ ranges := fun r hr =>
    List.dropLast_subset ranges hr
  have hlast : ∀ r, ranges.getLast? = some r → r ∈ ranges := fun r hr =>
    List.mem_of_getLast? hr
  constructor
  · intro s hs
    rcases mem_ofRanges_iff.1 hs with ⟨r, hr, hrs⟩ | ⟨r, hr, hrs⟩
    · exact ((hsound r (hinner r hr)).inner s hrs).1.consistent
    · exact ((hsound r (hlast r hr)).last s hrs).consistent
  · rw [ofRanges_eq, List.pairwise_append]
    refine ⟨?_, ?_, ?_⟩
    · have hdrop := horder.sublist (List.dropLast_sublist ranges)
      refine List.pairwise_filterMap.2 (hdrop.imp_of_mem ?_)
      intro a b ha hb hab s hs t ht
      obtain ⟨hbuilds, hclosed⟩ := (hsound a (hinner a ha)).inner s hs
      exact hbuilds.precedes hclosed ((hsound b (hinner b hb)).inner t ht).1 hab
    · cases ranges.getLast?.bind last with
      | none => exact List.Pairwise.nil
      | some s => exact List.pairwise_singleton _ s
    · intro s hs t ht
      obtain ⟨a, ha, has⟩ := List.mem_filterMap.1 hs
      obtain ⟨b, hb, hbt⟩ := Option.bind_eq_some_iff.1 (Option.mem_toList.1 ht)
      -- the last range comes after each of the others
      have hab : a.stop ≤ b.start := by
        obtain ⟨init, hinit⟩ := List.getLast?_eq_some_iff.1 hb
        rw [hinit, List.dropLast_concat] at ha
        rw [hinit, List.pairwise_append] at horder
        exact horder.2.2 a ha b List.mem_cons_self
      obtain ⟨hbuilds, hclosed⟩ := (hsound a (hinner a ha)).inner s has
      exact hbuilds.precedes hclosed ((hsound b (hlast b hb)).last t hbt) hab

/-- Dropping segments that are reported as too short leaves a well-formed list. -/
theorem wellFormed_atLeast {asked : Range} {shortest : Int} {segments : List Segment}
    (hconsistent : ∀ s ∈ segments, s.Consistent asked) (hordered : segments.Pairwise Precedes) :
    WellFormed asked shortest (atLeast (Span.seconds shortest) segments) where
  consistent := fun s hs => hconsistent s (List.mem_filter.1 hs).1
  ordered := hordered.sublist List.filter_sublist
  longEnough := by
    intro s hs
    rw [atLeast, List.mem_filter, decide_eq_true_eq, duration] at hs
    exact Span.seconds_le_seconds_iff.1 hs.2

theorem forall_mem_ofRanges {P : Segment → Prop} {inner last : Range → Option Segment}
    {ranges : List Range} (hinner : ∀ r ∈ ranges, ∀ s, inner r = some s → P s)
    (hlast : ∀ r ∈ ranges, ∀ s, last r = some s → P s) : ∀ s ∈ ofRanges inner last ranges, P s := by
  intro s hs
  rcases mem_ofRanges_iff.1 hs with ⟨r, hr, hrs⟩ | ⟨r, hr, hrs⟩
  · exact hinner r (List.dropLast_subset ranges hr) s hrs
  · exact hlast r (List.mem_of_getLast? hr) s hrs

/-! ## Cut to the asked range -/

/-- A segment starts inside the asked range, at its very start if the activity began earlier. -/
def StartsInside (asked : Range) (s : Segment) : Prop :=
  asked.start ≤ s.start ∧ (s.startedBefore = true → s.start = asked.start)

/-- Cutting moves the start of a range into the asked range. -/
theorem startsInside_max (asked r : Range) :
    asked.start ≤ max r.start asked.start ∧
      (decide (r.start < asked.start) = true → max r.start asked.start = asked.start) := by
  constructor
  · rw [Instant.le_iff, Instant.nanos_max]
    omega
  · intro h
    have hlt : r.start < asked.start := of_decide_eq_true h
    show (⟨max r.start.nanos asked.start.nanos⟩ : Instant) = asked.start
    rw [Int.max_eq_right (Int.le_of_lt hlt)]

theorem builds_clipped {asked r : Range} {s : Segment}
    (hasked : asked.length ≤ Span.seconds longest) (h : clipped asked r = some s) :
    Builds asked r s ∧ s.isOngoing = false ∧ s.StartsInside asked := by
  obtain ⟨hlt, rfl⟩ := closed?_eq_some h
  rw [Range.length, Instant.sub_le_iff] at hasked
  have hlt' : (max r.start.nanos asked.start.nanos) < min r.stop.nanos asked.stop.nanos := hlt
  refine ⟨⟨⟨rfl, hlt, ?_, ?_, ?_⟩, ?_, ?_⟩, rfl, startsInside_max asked r⟩
  · show min r.stop.nanos asked.stop.nanos ≤ asked.stop.nanos
    omega
  · show asked.start.nanos < min r.stop.nanos asked.stop.nanos
    omega
  · refine durationOf_eq_wholeSeconds (Int.sub_nonneg_of_le (Int.le_of_lt hlt)) ?_
    rw [Instant.sub_le_iff, Instant.nanos_max, Instant.nanos_min]
    omega
  · show r.start.nanos ≤ max r.start.nanos asked.start.nanos
    omega
  · intro stop hstop
    rw [← Option.some.inj hstop]
    show min r.stop.nanos asked.stop.nanos ≤ r.stop.nanos
    omega

theorem builds_clippedOngoing {asked r : Range} {s : Segment}
    (hasked : asked.length ≤ Span.seconds longest) (h : clippedOngoing asked r = some s) :
    Builds asked r s ∧ s.StartsInside asked := by
  rw [clippedOngoing] at h
  split at h
  · rename_i hlt
    rw [Range.length, Instant.sub_le_iff] at hasked
    obtain rfl := Option.some.inj h
    refine ⟨⟨⟨rfl, hlt, ?_⟩, ?_, ?_⟩, startsInside_max asked r⟩
    · refine durationOf_eq_wholeSeconds (Int.sub_nonneg_of_le (Int.le_of_lt hlt)) ?_
      rw [Instant.sub_le_iff, Instant.nanos_max]
      omega
    · show r.start.nanos ≤ max r.start.nanos asked.start.nanos
      omega
    · intro stop hstop
      exact absurd hstop (by simp [ongoing])
  · exact absurd h (by simp)

/-- Ranges in order, cut to an asked range whose length can be reported, and without those that are
too short, are a well-formed list of segments that start inside the asked range. -/
theorem wellFormed_clip {asked : Range} (lastOngoing : Bool) {ranges : List Range} (shortest : Int)
    (hasked : asked.length ≤ Span.seconds longest)
    (horder : ranges.Pairwise fun a b => a.stop ≤ b.start) :
    WellFormed asked shortest (atLeast (Span.seconds shortest) (clip asked lastOngoing ranges)) ∧
      ∀ s ∈ atLeast (Span.seconds shortest) (clip asked lastOngoing ranges),
        s.StartsInside asked := by
  have hinner : ∀ r s, clipped asked r = some s → Builds asked r s ∧ s.isOngoing = false := by
    intro r s hs
    obtain ⟨hbuilds, hclosed, -⟩ := builds_clipped hasked hs
    exact ⟨hbuilds, hclosed⟩
  have hlast : ∀ r s, (if lastOngoing then clippedOngoing asked else clipped asked) r = some s →
      Builds asked r s ∧ s.StartsInside asked := by
    intro r s hs
    cases lastOngoing with
    | true => exact builds_clippedOngoing hasked hs
    | false =>
        obtain ⟨hbuilds, -, hstarts⟩ := builds_clipped hasked hs
        exact ⟨hbuilds, hstarts⟩
  obtain ⟨hcons, hpair⟩ := ordered_ofRanges horder fun r _ =>
    ⟨hinner r, fun s hs => (hlast r s hs).1⟩
  refine ⟨wellFormed_atLeast hcons hpair, fun s hs => ?_⟩
  refine forall_mem_ofRanges (fun r _ t ht => ?_) (fun r _ t ht => (hlast r t ht).2) s
    (List.mem_filter.1 hs).1
  exact (builds_clipped hasked ht).2.2

/-- Without a range in progress the segments are the ranges cut to the asked range. -/
theorem clip_false (asked : Range) (ranges : List Range) :
    clip asked false ranges = ranges.filterMap (clipped asked) :=
  ofRanges_self _ _

theorem exists_clipped_of_mem_clip {asked : Range} {ranges : List Range} {s : Segment}
    (hs : s ∈ clip asked false ranges) : ∃ r ∈ ranges, clipped asked r = some s := by
  rw [clip_false, List.mem_filterMap] at hs
  exact hs

theorem isOngoing_clip_false {asked : Range} {ranges : List Range} {s : Segment}
    (hs : s ∈ clip asked false ranges) : s.isOngoing = false := by
  obtain ⟨r, -, hrs⟩ := exists_clipped_of_mem_clip hs
  obtain ⟨-, rfl⟩ := closed?_eq_some hrs
  rfl

/-! ## From the starts of the ranges -/

/-- A segment says truly whether it started before the asked range. -/
def KeepsStart (asked : Range) (s : Segment) : Prop :=
  s.startedBefore = true ↔ s.start < asked.start

theorem builds_capped {asked r : Range} {s : Segment}
    (hshort : asked.stop - r.start ≤ Span.seconds longest) (hasked : asked.start < asked.stop)
    (hover : asked.start < r.stop) (h : capped asked r = some s) :
    Builds asked r s ∧ s.isOngoing = false ∧ s.KeepsStart asked := by
  obtain ⟨hlt, rfl⟩ := closed?_eq_some h
  rw [Instant.sub_le_iff] at hshort
  rw [Instant.lt_iff] at hasked hover
  refine ⟨⟨⟨rfl, hlt, ?_, ?_, ?_⟩, Int.le_refl _, ?_⟩, rfl, decide_eq_true_iff⟩
  · show min r.stop.nanos asked.stop.nanos ≤ asked.stop.nanos
    omega
  · show asked.start.nanos < min r.stop.nanos asked.stop.nanos
    omega
  · refine durationOf_eq_wholeSeconds (Int.sub_nonneg_of_le (Int.le_of_lt hlt)) ?_
    rw [Instant.sub_le_iff, Instant.nanos_min]
    omega
  · intro stop hstop
    rw [← Option.some.inj hstop]
    show min r.stop.nanos asked.stop.nanos ≤ r.stop.nanos
    omega

theorem builds_cappedOngoing {asked r : Range} {s : Segment}
    (hshort : asked.stop - r.start ≤ Span.seconds longest) (hstart : r.start < asked.stop)
    (h : cappedOngoing asked r = some s) : Builds asked r s ∧ s.KeepsStart asked := by
  obtain rfl := Option.some.inj h
  refine ⟨⟨⟨rfl, hstart, ?_⟩, Int.le_refl _, ?_⟩, decide_eq_true_iff⟩
  · exact durationOf_eq_wholeSeconds (Int.sub_nonneg_of_le (Int.le_of_lt hstart)) hshort
  · intro stop hstop
    exact absurd hstop (by simp [ongoing])

/-- Ranges in order that reach into the asked range, from their own starts and without those that
are too short, are a well-formed list of segments that keep these starts. -/
theorem wellFormed_keepStarts {asked : Range} (lastOngoing : Bool) {ranges : List Range}
    (shortest : Int) (hasked : asked.start < asked.stop)
    (horder : ranges.Pairwise fun a b => a.stop ≤ b.start)
    (hreach : ∀ r ∈ ranges, asked.start < r.stop ∧ r.start < asked.stop ∧
      asked.stop - r.start ≤ Span.seconds longest) :
    WellFormed asked shortest
        (atLeast (Span.seconds shortest) (keepStarts asked lastOngoing ranges)) ∧
      ∀ s ∈ atLeast (Span.seconds shortest) (keepStarts asked lastOngoing ranges),
        s.KeepsStart asked := by
  have hinner : ∀ r ∈ ranges, ∀ s, capped asked r = some s →
      Builds asked r s ∧ s.isOngoing = false ∧ s.KeepsStart asked := by
    intro r hr s hs
    obtain ⟨hover, -, hshort⟩ := hreach r hr
    exact builds_capped hshort hasked hover hs
  have hlast : ∀ r ∈ ranges, ∀ s,
      (if lastOngoing then cappedOngoing asked else capped asked) r = some s →
        Builds asked r s ∧ s.KeepsStart asked := by
    intro r hr s hs
    cases lastOngoing with
    | true =>
        obtain ⟨-, hstart, hshort⟩ := hreach r hr
        exact builds_cappedOngoing hshort hstart hs
    | false =>
        obtain ⟨hbuilds, -, hkeeps⟩ := hinner r hr s hs
        exact ⟨hbuilds, hkeeps⟩
  obtain ⟨hcons, hpair⟩ := ordered_ofRanges horder fun r hr =>
    ⟨fun s hs => ⟨(hinner r hr s hs).1, (hinner r hr s hs).2.1⟩, fun s hs => (hlast r hr s hs).1⟩
  refine ⟨wellFormed_atLeast hcons hpair, fun s hs => ?_⟩
  exact forall_mem_ofRanges (fun r hr t ht => (hinner r hr t ht).2.2)
    (fun r hr t ht => (hlast r hr t ht).2) s (List.mem_filter.1 hs).1

end Segment

end Telematics
