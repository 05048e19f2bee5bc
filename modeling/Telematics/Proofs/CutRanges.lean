import Telematics.Proofs.GapComponents
import Telematics.Proofs.SegmentLists

/-!
# Merged and cut ranges as sets of instants

A range holds the instants from its start up to, but not including, its stop. Merging ranges where
they touch does not change which instants are held (`Range.exists_mem_merge_zero_iff`), and cutting
a range to the asked range holds those that both hold (`Range.mem_meet_iff`). So the segments of
merged and cut ranges are the intersection of the asked range with all ranges together: no time is
lost and none is made up, no instant is in two segments, and each segment says truly whether one of
the ranges that it comes from began before the asked range (`Segment.cuts_clip_merge`).
-/

set_option autoImplicit false

namespace Telematics

namespace Range

variable {ranges : List Range} {m p : Range} {t : Instant}

/-! ## Instants of merged ranges -/

/-- What has grown from ranges that touch holds only instants that one of them holds. -/
theorem Joined.exists_mem {passes : Range → Range → Bool} {members : List Range}
    (h : Joined 0 passes members m) (ht : t ∈ m) : ∃ r ∈ members, t ∈ r := by
  induction h with
  | single r => exact ⟨r, List.mem_cons_self, ht⟩
  | @snoc members r next _ hj ih =>
      by_cases hlt : t < r.stop
      · obtain ⟨a, ha, hta⟩ := ih ⟨ht.1, hlt⟩
        exact ⟨a, List.mem_append_left _ ha, hta⟩
      · -- the next range starts no later than the growing one stops
        have hle : next.start ≤ r.stop := by
          rcases joins_iff.1 hj with hle | ⟨hle, -⟩
          · exact hle
          · rwa [Int.add_zero] at hle
        have hstop : t < max r.stop next.stop := ht.2
        rw [Instant.not_lt] at hlt
        refine ⟨next, List.mem_append_right _ List.mem_cons_self, Instant.le_trans hle hlt, ?_⟩
        rw [Instant.lt_iff, Instant.nanos_max] at hstop
        rw [Instant.le_iff] at hlt
        rw [Instant.lt_iff]
        omega

/-- A range within another one holds no other instants. -/
theorem Within.mem (h : m.Within p) (ht : t ∈ m) : t ∈ p :=
  ⟨Instant.le_trans h.1 ht.1, Int.lt_of_lt_of_le ht.2 h.2⟩

/-- Merging ranges where they touch keeps the instants that they hold. -/
theorem exists_mem_merge_zero_iff : (∃ m ∈ merge 0 ranges, t ∈ m) ↔ ∃ r ∈ ranges, t ∈ r := by
  constructor
  · rintro ⟨m, hm, ht⟩
    obtain ⟨members, hjoined, hpart⟩ := exists_joined_of_mem_mergeWith hm
    obtain ⟨r, hr, htr⟩ := hjoined.exists_mem ht
    exact ⟨r, List.mem_mergeSort.1 (hpart.subset hr), htr⟩
  · rintro ⟨r, hr, htr⟩
    obtain ⟨m, hm, hrm⟩ : ∃ m ∈ merge 0 ranges, r.Within m := exists_within_mergeWith hr
    exact ⟨m, hm, hrm.mem htr⟩

/-- No instant is held by two merged ranges. -/
theorem eq_of_mem_merge (hm : m ∈ merge 0 ranges) (hp : p ∈ merge 0 ranges) (htm : t ∈ m)
    (htp : t ∈ p) : m = p := by
  have hover : ∀ a b : Range, a.Apart 0 b → t ∈ a → t ∉ b := by
    intro a b hab ha hb
    exact Int.lt_irrefl _ (Int.lt_trans ha.2 (Int.lt_of_lt_of_le hab.1 hb.1))
  rcases eq_or_apart (pairwise_merge_apart 0 ranges) hm hp with heq | hmp | hpm
  · exact heq
  · exact absurd htp (hover m p hmp htm)
  · exact absurd htm (hover p m hpm htp)

/-- A merged range starts with one of the ranges within it. -/
theorem exists_start_of_mem_merge (hm : m ∈ merge 0 ranges) :
    ∃ a ∈ ranges, a.Within m ∧ a.start = m.start := by
  obtain ⟨members, hjoined, hpart⟩ := exists_joined_of_mem_mergeWith hm
  obtain ⟨⟨a, ha, hstart⟩, -⟩ := hjoined.ends
  have hsorted : members.Pairwise fun a b => a.start ≤ b.start :=
    (pairwise_start_mergeSort ranges).sublist hpart.sublist
  exact ⟨a, List.mem_mergeSort.1 (hpart.subset ha), hjoined.within hsorted a ha, hstart⟩

/-! ## Instants of cut ranges -/

/-- A range cut to the asked range. -/
def meet (asked r : Range) : Range := ⟨max r.start asked.start, min r.stop asked.stop⟩

theorem mem_meet_iff {asked r : Range} : t ∈ asked.meet r ↔ t ∈ asked ∧ t ∈ r := by
  simp only [mem_iff, meet, Instant.le_iff, Instant.lt_iff, Instant.nanos_max, Instant.nanos_min]
  omega

theorem meet_within (asked r : Range) : (asked.meet r).Within r :=
  ⟨Int.le_max_left _ _, Int.min_le_left _ _⟩

end Range

namespace Segment

variable {asked r : Range} {ranges : List Range} {s : Segment} {t : Instant}

/-- The time of a closed segment. -/
def range? (s : Segment) : Option Range := s.stop.map fun stop => ⟨s.start, stop⟩

/-- A closed segment holds an instant. -/
def Holds (s : Segment) (t : Instant) : Prop := ∃ r ∈ s.range?, t ∈ r

/-- A closed segment lies within a range. -/
def LiesIn (s : Segment) (m : Range) : Prop := ∃ r ∈ s.range?, r.Within m

/-- A range is cut to a segment exactly when it shares an instant with the asked range; the segment
then has the time of what they share, and says whether the range began before. -/
theorem clipped_eq_some_iff :
    clipped asked r = some s ↔ (asked.meet r).start < (asked.meet r).stop ∧
      s = ⟨(asked.meet r).start, some (asked.meet r).stop, durationOf (asked.meet r).length, false,
        decide (r.start < asked.start)⟩ := by
  constructor
  · exact closed?_eq_some
  · rintro ⟨hlt, rfl⟩
    exact if_pos hlt

theorem holds_of_clipped (h : clipped asked r = some s) : s.Holds t ↔ t ∈ asked ∧ t ∈ r := by
  obtain ⟨-, rfl⟩ := clipped_eq_some_iff.1 h
  rw [← Range.mem_meet_iff]
  simp [Holds, range?]

/-- The ranges of which segments are cut are those that share an instant with the asked range. -/
theorem exists_clipped (hasked : t ∈ asked) (hr : t ∈ r) : ∃ s, clipped asked r = some s := by
  obtain ⟨hstart, hstop⟩ := Range.mem_meet_iff.2 ⟨hasked, hr⟩
  exact ⟨_, clipped_eq_some_iff.2 ⟨Int.lt_of_le_of_lt hstart hstop, rfl⟩⟩

/-- A segment lies within the range that it is cut of, and in no other merged one. -/
theorem liesIn_iff_of_clipped {m p : Range} (hm : m ∈ Range.merge 0 ranges)
    (hp : p ∈ Range.merge 0 ranges) (h : clipped asked m = some s) : s.LiesIn p ↔ p = m := by
  obtain ⟨hlt, rfl⟩ := clipped_eq_some_iff.1 h
  constructor
  · rintro ⟨r, hr, hwithin⟩
    obtain rfl : asked.meet m = r := Option.some.inj hr
    -- the first instant of the segment is in both ranges
    have hfirst : (asked.meet m).start ∈ asked.meet m := ⟨Int.le_refl _, hlt⟩
    exact Range.eq_of_mem_merge hp hm (hwithin.mem hfirst) (Range.mem_meet_iff.1 hfirst).2
  · rintro rfl
    exact ⟨asked.meet p, rfl, Range.meet_within asked p⟩

/-- Ranges that are over one before the other are cut to such segments. -/
theorem precedes_of_clipped {a b : Range} {u v : Segment} (hab : a.Before b)
    (hu : clipped asked a = some u) (hv : clipped asked b = some v) : u.Precedes v := by
  obtain ⟨hlt, rfl⟩ := clipped_eq_some_iff.1 hu
  obtain ⟨-, rfl⟩ := clipped_eq_some_iff.1 hv
  have hle : (asked.meet a).stop ≤ (asked.meet b).start :=
    Instant.le_trans (Range.meet_within asked a).2
      (Instant.le_trans (Int.le_of_lt hab) (Range.meet_within asked b).1)
  exact ⟨Int.lt_of_lt_of_le hlt hle, (asked.meet a).stop, rfl, hle⟩

/-! ## Segments of merged ranges -/

theorem mem_clip_merge_iff : s ∈ clip asked false (Range.merge 0 ranges) ↔
    ∃ m ∈ Range.merge 0 ranges, clipped asked m = some s := by
  rw [clip_false, List.mem_filterMap]

/-- The segments hold what is asked for and in one of the ranges. -/
theorem exists_holds_iff : (∃ s ∈ clip asked false (Range.merge 0 ranges), s.Holds t) ↔
    t ∈ asked ∧ ∃ r ∈ ranges, t ∈ r := by
  rw [← Range.exists_mem_merge_zero_iff]
  constructor
  · rintro ⟨s, hs, ht⟩
    obtain ⟨m, hm, hclipped⟩ := mem_clip_merge_iff.1 hs
    obtain ⟨hasked, htm⟩ := (holds_of_clipped hclipped).1 ht
    exact ⟨hasked, m, hm, htm⟩
  · rintro ⟨hasked, m, hm, htm⟩
    obtain ⟨s, hclipped⟩ := exists_clipped hasked htm
    exact ⟨s, mem_clip_merge_iff.2 ⟨m, hm, hclipped⟩,
      (holds_of_clipped hclipped).2 ⟨hasked, htm⟩⟩

/-- Segments that hold one instant are one segment. -/
theorem eq_of_holds {a b : Segment} (ha : a ∈ clip asked false (Range.merge 0 ranges))
    (hb : b ∈ clip asked false (Range.merge 0 ranges)) (hta : a.Holds t) (htb : b.Holds t) :
    a = b := by
  obtain ⟨m, hm, hclippedA⟩ := mem_clip_merge_iff.1 ha
  obtain ⟨p, hp, hclippedB⟩ := mem_clip_merge_iff.1 hb
  obtain rfl := Range.eq_of_mem_merge hm hp ((holds_of_clipped hclippedA).1 hta).2
    ((holds_of_clipped hclippedB).1 htb).2
  exact Option.some.inj (hclippedA.symm.trans hclippedB)

/-- A segment started before the asked range exactly when one of the ranges that it comes from
did. -/
theorem startedBefore_iff_of_clipped {m : Range} (hm : m ∈ Range.merge 0 ranges)
    (h : clipped asked m = some s) :
    s.startedBefore = true ↔ ∃ a ∈ ranges, a.Within m ∧ a.start < asked.start := by
  obtain ⟨-, rfl⟩ := clipped_eq_some_iff.1 h
  rw [decide_eq_true_iff]
  constructor
  · intro hlt
    obtain ⟨a, ha, ham, hstart⟩ := Range.exists_start_of_mem_merge hm
    exact ⟨a, ha, ham, hstart ▸ hlt⟩
  · rintro ⟨a, -, ham, hlt⟩
    exact Int.lt_of_le_of_lt ham.1 hlt

/-- The segments are the intersection of the asked range with some ranges: what holds of the
segments of ranges that are merged where they touch and cut to the asked range. -/
structure Cuts (asked : Range) (ranges : List Range) (segments : List Segment) : Prop where
  /-- An instant is in a segment exactly when it is asked for and in one of the ranges. -/
  holds_iff : ∀ t, (∃ s ∈ segments, s.Holds t) ↔ t ∈ asked ∧ ∃ r ∈ ranges, t ∈ r
  /-- No instant is in two segments. -/
  holds_unique : ∀ t, ∀ a ∈ segments, ∀ b ∈ segments, a.Holds t → b.Holds t → a = b
  /-- Segments are closed and not empty. -/
  nonempty : ∀ s ∈ segments, ∃ r ∈ s.range?, r.start < r.stop
  /-- Each segment is over before a later one starts. -/
  ordered : segments.Pairwise Precedes
  /-- Each segment lies within exactly one of the merged ranges. -/
  origin : ∀ s ∈ segments, ∃! m, m ∈ Range.merge 0 ranges ∧ s.LiesIn m
  /-- It started before the asked range exactly when one of the ranges in that one did. -/
  startedBefore_iff : ∀ s ∈ segments, ∀ m ∈ Range.merge 0 ranges, s.LiesIn m →
    (s.startedBefore = true ↔ ∃ a ∈ ranges, a.Within m ∧ a.start < asked.start)

variable (asked ranges) in
/-- Merging ranges where they touch and cutting them to the asked range intersects it with all of
them together, however they overlap and in whatever order they come. -/
theorem cuts_clip_merge : Cuts asked ranges (clip asked false (Range.merge 0 ranges)) := by
  refine ⟨fun t => exists_holds_iff, fun t a ha b hb => eq_of_holds ha hb, ?_, ?_, ?_, ?_⟩
  · intro s hs
    obtain ⟨m, -, hclipped⟩ := mem_clip_merge_iff.1 hs
    obtain ⟨hlt, rfl⟩ := clipped_eq_some_iff.1 hclipped
    exact ⟨asked.meet m, rfl, hlt⟩
  · rw [clip_false, List.pairwise_filterMap]
    apply (Range.pairwise_mergeWith 0 (fun _ _ => true) ranges).imp
    intro m p hmp a ha b hb
    exact precedes_of_clipped hmp ha hb
  · intro s hs
    obtain ⟨m, hm, hclipped⟩ := mem_clip_merge_iff.1 hs
    refine ⟨m, ⟨hm, (liesIn_iff_of_clipped hm hm hclipped).2 rfl⟩, ?_⟩
    rintro p ⟨hp, hlies⟩
    exact (liesIn_iff_of_clipped hm hp hclipped).1 hlies
  · intro s hs p hp hlies
    obtain ⟨m, hm, hclipped⟩ := mem_clip_merge_iff.1 hs
    obtain rfl := (liesIn_iff_of_clipped hm hp hclipped).1 hlies
    exact startedBefore_iff_of_clipped hp hclipped

end Segment

end Telematics
