import Telematics.Proofs.CutRanges
import Telematics.Proofs.FloatArithmetic
import Telematics.Proofs.GuardedRefuel
import Telematics.Proofs.ValidRequests

/-!
# What lets a window pass

A window of the scan compares two readings, and goes on unless the increase is at most the least
one. Where both can be read, this says that the level rose by more than that
(`Refuel.not_tooFlat_iff`); but the increase from a level that is not finite, or to one that is no
number, is no number itself and at most nothing, so such a window passes as well. Every segment
comes from a window with a rise or from one that cannot be read (`Refuel.exists_window`), and the
second kind is there: a sample that is no number, between two whose levels differ by the absolute
rise, is enough for a segment (`Refuel.not_exists_rises_gapLog`).
-/

set_option autoImplicit false

namespace Telematics.Refuel

open FloatOrder

variable {least first last : Float}

/-! ## Two readings -/

/-- The increase from one level to another in percent of the first. -/
def increase (first last : Float) : Float := (last - first) / first * 100.0

/-- A rise from a level that is not empty by more than the least increase. -/
def RealRise (least first last : Float) : Prop :=
  leastStart ≤ first ∧ least < increase first last

instance (least first last : Float) : Decidable (RealRise least first last) :=
  inferInstanceAs (Decidable (_ ∧ _))

/-- Readings that have no increase: the first is not finite, or the last is no number. -/
def Unreadable (first last : Float) : Prop := first.isFinite = false ∨ last.isNaN = true

theorem pos_of_leastStart_le (h : leastStart ≤ first) : 0.0 < first :=
  lt_of_lt_of_le (show (0.0 : Float) < 1e-6 by decide) h

/-- Levels that can be read have an increase. -/
theorem isNumber_increase (hstart : leastStart ≤ first) (hfinite : first.isFinite = true)
    (hlast : IsNumber last) : IsNumber (increase first last) :=
  isNumber_mul (isNumber_div (isNumber_sub hlast hfinite) (pos_of_leastStart_le hstart) hfinite)
    (by decide) (by decide)

/-- Only levels that can be read have an increase. -/
theorem not_unreadable_of_isNumber (h : IsNumber (increase first last)) :
    ¬ Unreadable first last := by
  have hquotient := (isNumber_of_mul h).1
  have hfinite := isFinite_of_isNumber_sub_div hquotient
  have hlast : last.isNaN = false := (isNumber_of_sub (isNumber_of_div hquotient).1).1
  rintro (hfirst | hnan)
  · exact Bool.noConfusion (hfirst.symm.trans hfinite)
  · exact Bool.noConfusion (hlast.symm.trans hnan)

/-- No level is an increase on itself. -/
theorem increase_self_le (hleast : 0.0 < least) (hstart : leastStart ≤ first)
    (hfinite : first.isFinite = true) : increase first first ≤ least := by
  obtain ⟨digits, exponent, hdigits, hfirst⟩ :=
    exists_unpack_eq_finite (pos_of_leastStart_le hstart) hfinite
  obtain ⟨digits', exponent', hdigits', hhundred⟩ :=
    exists_unpack_eq_finite (show (0.0 : Float) < 100.0 by decide) (by decide)
  -- the difference is zero, and the quotient and the product leave it zero
  have hquotient : ((first - first) / first).toModel.unpack = .zero .positive := by
    rw [unpack_div, unpack_sub_self hfinite, hfirst]
    exact repack_zero .positive
  have hzero : (increase first first).toModel.unpack = .zero .positive := by
    rw [increase, unpack_mul, hquotient, hhundred]
    exact repack_zero .positive
  have hplace : place (increase first first) = place 0.0 := by
    rw [place, hzero]
    decide
  have hnumber := isNumber_increase hstart hfinite (isNumber_of_isFinite hfinite)
  obtain ⟨hnumber0, hnumberLeast⟩ := isNumber_of_lt hleast
  rw [le_iff_place hnumber hnumberLeast, hplace, ← le_iff_place hnumber0 hnumberLeast]
  exact le_of_lt hleast

/-- A window that does not start empty goes on exactly where the level rose by more than the least
increase or where there is no increase. -/
theorem not_tooFlat_iff (hleast : IsNumber least) (hstart : ¬ first < leastStart) :
    tooFlat least first last = false ↔ RealRise least first last ∨ Unreadable first last := by
  have hflat : tooFlat least first last = false ↔ ¬ increase first last ≤ least :=
    decide_eq_false_iff_not
  rw [hflat]
  constructor
  · intro hnot
    -- levels that can be read have an increase, which can be compared with the least one
    cases hfinite : first.isFinite with
    | false => exact Or.inr (Or.inl hfinite)
    | true =>
        cases hnan : last.isNaN with
        | true => exact Or.inr (Or.inr hnan)
        | false =>
            have hle : leastStart ≤ first :=
              le_of_not_lt (isNumber_of_isFinite hfinite) (by decide) hstart
            have hnumber := isNumber_increase hle hfinite hnan
            exact Or.inl ⟨hle, (le_or_lt hnumber hleast).resolve_left hnot⟩
  · rintro (⟨-, hlt⟩ | hunreadable) hle
    · exact not_lt_of_le hle hlt
    · exact not_unreadable_of_isNumber (isNumber_of_le hle).1 hunreadable

/-! ## Windows -/

variable {samples : List (Sample Float)} {start : Instant} {shortest : Span} {found : Range}

/-- The last samples at or before the start and the end of a window, with their positions. -/
structure Reads (samples : List (Sample Float)) (start : Instant) (i n : Nat)
    (first last : Sample Float) : Prop where
  atStart : Series.indexAtOrBefore start samples = some i
  atEnd : Series.indexAtOrBefore (start + windowLength) samples = some n
  first_eq : samples[i]? = some first
  last_eq : samples[n]? = some last

/-- The level at the start of a window is exceeded, by more than the least increase, at a later
sample that lies no further than the last one of the window. -/
def Rises (least : Float) (samples : List (Sample Float)) (start : Instant) : Prop :=
  ∃ i j n first top last, Reads samples start i n first last ∧ i < j ∧ j ≤ n ∧
    samples[j]? = some top ∧ RealRise least first.value top.value

/-- The levels at the start and the end of a window have no increase. -/
def Blind (samples : List (Sample Float)) (start : Instant) : Prop :=
  ∃ i n first last, Reads samples start i n first last ∧ Unreadable first.value last.value

/-- A window that shows a refuel has passed both tests of its readings. -/
theorem reads_of_shown (h : shown least shortest samples start = some found) :
    ∃ i n first last, Reads samples start i n first last ∧ i ≤ n ∧
      ¬ first.value < leastStart ∧ tooFlat least first.value last.value = false := by
  have hle : start ≤ start + windowLength := Int.le_add_of_nonneg_right (by decide)
  cases hindex : Series.indexAtOrBefore start samples with
  | none =>
      rw [shown, cursorUpTo, Series.upTo_eq_nil_of_indexAtOrBefore hindex] at h
      exact absurd h (by simp [cursorAt])
  | some i =>
      -- the cursor at the start sees the last sample of the window among those after it
      obtain ⟨earlier, here, later, hcursor, rfl, rfl, htimes⟩ := exists_cursorUpTo hindex
      obtain ⟨n, hend, hlast⟩ := exists_lookup_at_end later
        fun s hs => Instant.le_trans (htimes s hs) hle
      have hhere : (earlier.reverse ++ here :: later)[earlier.length]? = some here := by simp
      rw [shown, hcursor, Option.bind_some, inWindow] at h
      split at h
      · exact absurd h (by simp)
      · rename_i hstart
        split at h
        · exact absurd h (by simp)
        · rename_i hflat
          exact ⟨_, n, here, _, ⟨hindex, hend, hhere, hlast⟩,
            Series.indexAtOrBefore_mono hle hindex hend, hstart, Bool.eq_false_iff.2 hflat⟩

/-- A window that shows a refuel rises or cannot be read. -/
theorem rises_or_blind (hleast : 0.0 < least)
    (h : shown least shortest samples start = some found) :
    Rises least samples start ∨ Blind samples start := by
  obtain ⟨i, n, first, last, hreads, hin, hstart, hflat⟩ := reads_of_shown h
  rcases (not_tooFlat_iff (isNumber_of_lt hleast).2 hstart).1 hflat with hrise | hunreadable
  · rcases Nat.lt_or_eq_of_le hin with hlt | rfl
    · exact Or.inl ⟨i, n, n, first, last, last, hreads, hlt, Nat.le_refl n, hreads.last_eq, hrise⟩
    · -- both readings are one sample, which does not rise above itself
      obtain rfl : first = last := Option.some.inj (hreads.first_eq.symm.trans hreads.last_eq)
      have hfinite : first.value.isFinite = true :=
        isFinite_of_isNumber_sub_div (isNumber_of_mul (isNumber_of_lt hrise.2).2).1
      exact absurd hrise.2 (not_lt_of_le (increase_self_le hleast hrise.1 hfinite))
  · exact Or.inr ⟨i, n, first, last, hreads, hunreadable⟩

/-! ## Segments -/

/-- A segment starts in a refuel that one of the windows shows. -/
theorem exists_shown {asked : Range} {s : Segment}
    (hs : s ∈ segments asked least shortest samples) :
    ∃ start ∈ windowStarts asked, ∃ found, shown least shortest samples start = some found ∧
      s.start ∈ found := by
  rw [segments] at hs
  split at hs
  · exact absurd hs (by simp)
  · obtain ⟨hclip, -⟩ := List.mem_filter.1 hs
    -- its first instant is held by a range that was merged
    obtain ⟨r, hr, hlt⟩ := (Segment.cuts_clip_merge asked _).nonempty s hclip
    obtain ⟨stop, -, rfl⟩ := Option.map_eq_some_iff.1 hr
    have hholds : s.Holds s.start := ⟨_, hr, Int.le_refl _, hlt⟩
    obtain ⟨-, found, hfound, hmem⟩ := Segment.exists_holds_iff.1 ⟨s, hclip, hholds⟩
    rw [finds_eq_filterMap] at hfound
    obtain ⟨start, hstart, hfind⟩ := List.mem_filterMap.1 hfound
    exact ⟨start, hstart, found, hfind, hmem⟩

/-- Every segment starts in a refuel of a window in which the level rose by more than the least
increase, or of one in which there was no increase to compare. -/
theorem exists_window {r : Request} (hvalid : r.tuning.firstOutside = none)
    {samples : List (Sample Float)} {s : Segment}
    (hs : s ∈ segments r.asked (r.tuning.minIncrease defaultIncrease)
      (r.tuning.minSegment defaultMinSegment) samples) :
    ∃ start ∈ windowStarts r.asked, ∃ found,
      shown (r.tuning.minIncrease defaultIncrease) (r.tuning.minSegment defaultMinSegment) samples
        start = some found ∧ s.start ∈ found ∧
      (Rises (r.tuning.minIncrease defaultIncrease) samples start ∨ Blind samples start) := by
  obtain ⟨start, hstart, found, hfind, hmem⟩ := exists_shown hs
  exact ⟨start, hstart, found, hfind, hmem,
    rises_or_blind (Tuning.minIncrease_pos hvalid (by decide)) hfind⟩

/-- Twenty minutes, with the default tunables. -/
def gapRequest : Request := ⟨42, ⟨.ofSeconds 0, .ofSeconds 1200⟩, .default⟩

/-- A level of 70, one that is no number five minutes later, and a level of 90 ten minutes after
that. -/
def gapLog : List (Sample Float) :=
  [⟨.ofSeconds 0, 70.0⟩, ⟨.ofSeconds 300, 0.0 / 0.0⟩, ⟨.ofSeconds 900, 90.0⟩]

/-- The segment of that log. -/
def gapFill : Segment := ⟨.ofSeconds 0, some (.ofSeconds 900), 900, false, false⟩

theorem segments_gapLog :
    segments gapRequest.asked (gapRequest.tuning.minIncrease defaultIncrease)
      (gapRequest.tuning.minSegment defaultMinSegment) gapLog = [gapFill] := by
  -- the windows that start in the first five minutes all show the same refuel
  have hfinds : finds gapRequest.asked (gapRequest.tuning.minIncrease defaultIncrease)
      (gapRequest.tuning.minSegment defaultMinSegment) gapLog =
        List.replicate 5 ⟨.ofSeconds 0, .ofSeconds 900⟩ := by
    decide +kernel
  rw [segments, if_neg (by decide), hfinds, Range.merge, Range.mergeWith,
    List.mergeSort_of_pairwise (by decide)]
  decide

theorem exists_window_gapLog :
    gapRequest.tuning.firstOutside = none ∧
      gapFill ∈ segments gapRequest.asked (gapRequest.tuning.minIncrease defaultIncrease)
        (gapRequest.tuning.minSegment defaultMinSegment) gapLog ∧
      ∃ start ∈ windowStarts gapRequest.asked, ∃ found,
        shown (gapRequest.tuning.minIncrease defaultIncrease)
          (gapRequest.tuning.minSegment defaultMinSegment) gapLog start = some found ∧
        gapFill.start ∈ found ∧
        (Rises (gapRequest.tuning.minIncrease defaultIncrease) gapLog start ∨
          Blind gapLog start) := by
  have hmem : gapFill ∈ segments gapRequest.asked (gapRequest.tuning.minIncrease defaultIncrease)
      (gapRequest.tuning.minSegment defaultMinSegment) gapLog := by
    rw [segments_gapLog]
    exact List.mem_cons_self
  exact ⟨rfl, hmem, exists_window rfl hmem⟩

/-- The log has a segment, but no window of it rises: the level climbs by less than 30 percent from
70 to 90, and by nothing that is a number to or from the sample between. -/
theorem not_exists_rises_gapLog :
    Series.Ascending gapLog ∧ gapRequest.tuning.firstOutside = none ∧
      segments gapRequest.asked (gapRequest.tuning.minIncrease defaultIncrease)
        (gapRequest.tuning.minSegment defaultMinSegment) gapLog = [gapFill] ∧
      ∀ start, ¬ Rises (gapRequest.tuning.minIncrease defaultIncrease) gapLog start := by
  refine ⟨by decide, rfl, segments_gapLog, ?_⟩
  rintro start ⟨i, j, n, first, top, last, hreads, hij, hjn, htop, hrise⟩
  have hfirst := hreads.first_eq
  obtain ⟨hj, -⟩ := List.getElem?_eq_some_iff.1 htop
  have hcases : (i = 0 ∧ j = 1) ∨ (i = 0 ∧ j = 2) ∨ (i = 1 ∧ j = 2) := by
    simp only [gapLog, List.length_cons, List.length_nil] at hj
    omega
  rcases hcases with ⟨rfl, rfl⟩ | ⟨rfl, rfl⟩ | ⟨rfl, rfl⟩
  all_goals
    cases hfirst
    cases htop
    exact absurd hrise (by decide)

end Telematics.Refuel
