import Mathlib.Algebra.Order.Field.Rat
import Mathlib.Tactic.GCongr
import Mathlib.Tactic.Linarith
import Mathlib.Tactic.NormNum
import Telematics.Proofs.CutRanges
import Telematics.Proofs.GuardedRefuel

/-!
# Step fills

A step fill is a rise of at least 20 points between two neighbouring samples that are one to five
minutes apart, after which the level stays up for a while (`Refuel.StepFill`). One of the windows of
the scan starts in the minute after the first of the two samples: that sample is the last one at the
start of the window, and the level at its end is not below the second one. The walk back from the
first sample to the trough goes up again on the way to the peak (`Cursor.exists_fallBack_eq`,
`Cursor.peak_climb`), and the peak is no earlier and no lower than the second sample. So the window
shows a refuel that spans both samples, and neither merging nor cutting takes any of it away
(`Refuel.exists_segment_of_stepFill`). Levels are exact numbers here.
-/

set_option autoImplicit false

namespace Telematics

namespace Instant

/-- One of the instants of a scan follows any instant after its start by less than a step. -/
theorem exists_mem_every {step : Span} {start stop t : Instant} (h : 0 < step) (hstart : start ≤ t)
    (hstop : t.nanos + step ≤ stop.nanos) :
    ∃ w ∈ every step start stop, t ≤ w ∧ w.nanos < t.nanos + step := by
  have hdiv := Int.mul_ediv_add_emod (t.nanos - start.nanos + step - 1) step
  have hnonneg := Int.emod_nonneg (t.nanos - start.nanos + step - 1) (Int.ne_of_gt h)
  have hlt := Int.emod_lt_of_pos (t.nanos - start.nanos + step - 1) h
  have hcount : 0 ≤ (t.nanos - start.nanos + step - 1) / step :=
    Int.ediv_nonneg (by rw [le_iff] at hstart; omega) (Int.le_of_lt h)
  generalize (t.nanos - start.nanos + step - 1) / step = k at hdiv hcount
  refine ⟨start + step * k, (mem_every h).2 ⟨k.toNat, ?_, ?_⟩, ?_, ?_⟩
  · rw [Int.toNat_of_nonneg hcount]
  · rw [lt_iff, nanos_add]
    omega
  · rw [le_iff, nanos_add]
    omega
  · rw [nanos_add]
    omega

end Instant

/-! ## Climbs of a cursor -/

namespace Cursor

section Walks

variable {α : Type} [Level α]

/-- Each sample is higher than the one before it. -/
def Climbs (samples : List (Sample α)) : Prop := samples.IsChain fun a b => a.value < b.value

/-- Going back over lower samples leaves a climb to the sample from which the walk began. -/
theorem exists_fallBack_eq (here : Sample α) (later earlier : List (Sample α)) :
    ∃ front low climb, fallBack here later earlier = ⟨front, low, climb ++ later⟩ ∧
      front.reverse ++ low :: climb = earlier.reverse ++ [here] ∧
      (low :: climb).getLast? = some here ∧ Climbs (low :: climb) := by
  induction earlier generalizing here later with
  | nil => exact ⟨[], here, [], rfl, rfl, rfl, List.isChain_singleton _⟩
  | cons before earlier ih =>
      rw [fallBack]
      split
      · rename_i hlower
        obtain ⟨front, low, climb, heq, hsplit, hlast, hclimbs⟩ := ih before (here :: later)
        refine ⟨front, low, climb ++ [here], ?_, ?_, ?_, ?_⟩
        · rw [heq, List.append_assoc, List.singleton_append]
        · rw [← List.cons_append, ← List.append_assoc, hsplit, List.reverse_cons]
        · rw [← List.cons_append, List.getLast?_append, List.getLast?_singleton, Option.some_or]
        · -- the climb so far ends with the sample before
          refine List.isChain_append.2 ⟨hclimbs, List.isChain_singleton _, ?_⟩
          intro x hx y hy
          obtain rfl := Option.some.inj (hlast.symm.trans hx)
          obtain rfl := Option.some.inj hy
          exact hlower
      · exact ⟨before :: earlier, here, [], rfl, rfl, rfl, List.isChain_singleton _⟩

/-- A climb ends no lower than it begins. -/
theorem Climbs.le_getLast {low high : Sample Rat} {climb : List (Sample Rat)}
    (h : Climbs (low :: climb)) (hhigh : (low :: climb).getLast? = some high) :
    low.value ≤ high.value := by
  induction climb generalizing low with
  | nil =>
      obtain rfl := Option.some.inj hhigh
      exact le_refl _
  | cons s climb ih =>
      obtain ⟨hlower, hclimbs⟩ := List.isChain_cons_cons.1 h
      rw [List.getLast?_cons_cons] at hhigh
      exact le_trans (le_of_lt hlower) (ih hclimbs hhigh)

/-- The search for the peak goes on to the top of a climb. -/
theorem peak_climb {limit : Instant} {low high : Sample α} {climb : List (Sample α)}
    (hclimbs : Climbs (low :: climb)) (htimes : ∀ s ∈ climb, s.time ≤ limit)
    (hhigh : (low :: climb).getLast? = some high) (rest : List (Sample α)) :
    peak limit low (climb ++ rest) = peak limit high rest := by
  induction climb generalizing low with
  | nil =>
      obtain rfl := Option.some.inj hhigh
      rfl
  | cons s climb ih =>
      obtain ⟨hlower, hclimbs⟩ := List.isChain_cons_cons.1 hclimbs
      obtain ⟨htime, htimes⟩ := List.forall_mem_cons.1 htimes
      rw [List.cons_append, peak, if_neg (Instant.not_lt.2 htime), if_pos hlower]
      exact ih hclimbs htimes (by rwa [List.getLast?_cons_cons] at hhigh)

/-- The peak is the sample from which the search began, or one of the later ones. -/
theorem peak_mem (limit : Instant) (best : Sample α) (later : List (Sample α)) :
    peak limit best later ∈ best :: later := by
  induction later generalizing best with
  | nil => exact List.mem_singleton_self best
  | cons s later ih =>
      rw [peak]
      split
      · exact List.mem_cons_self
      · split
        · exact List.mem_cons_of_mem _ (ih s)
        · split
          · exact List.mem_cons_self
          · rcases List.mem_cons.1 (ih best) with hbest | hlater
            · rw [hbest]
              exact List.mem_cons_self
            · exact List.mem_cons_of_mem _ (List.mem_cons_of_mem _ hlater)

end Walks

/-- The peak is not below the sample from which the search began. -/
theorem le_peak (limit : Instant) (best : Sample Rat) (later : List (Sample Rat)) :
    best.value ≤ (peak limit best later).value := by
  induction later generalizing best with
  | nil => exact le_refl _
  | cons s later ih =>
      rw [peak]
      split
      · exact le_refl _
      · split
        · rename_i hhigher
          exact le_trans (le_of_lt hhigher) (ih s)
        · split
          · exact le_refl _
          · exact ih best

/-- The trough before a rise from a sample to the next one lies before both, and the level climbs
from the trough to the first of them. -/
theorem exists_trough_eq (limit : Instant) (before after : List (Sample Rat)) {a b : Sample Rat}
    (hhigher : a.value < b.value) :
    ∃ front low climb, trough limit ⟨before.reverse, a, b :: after⟩ =
        ⟨front, low, climb ++ b :: after⟩ ∧ (∀ s ∈ low :: climb, s ∈ before ++ [a]) ∧
      (low :: climb).getLast? = some a ∧ Climbs (low :: climb) := by
  have hsink : sink limit before.reverse a (b :: after) = ⟨before.reverse, a, b :: after⟩ := by
    rw [sink, if_neg fun hdown => absurd hhigher (not_lt.2 hdown.2)]
  obtain ⟨front, low, climb, hback, hsplit, hlast, hclimbs⟩ :=
    exists_fallBack_eq a (b :: after) before.reverse
  rw [List.reverse_reverse] at hsplit
  refine ⟨front, low, climb, ?_, ?_, hlast, hclimbs⟩
  · simp only [trough, hsink, hback]
  · intro s hs
    rw [← hsplit]
    exact List.mem_append_right _ hs

end Cursor

namespace Refuel

variable {asked : Range} {leastIncrease : Rat} {shortest : Int} {samples : List (Sample Rat)}
  {a b : Sample Rat}

/-- Between two neighbouring samples, a minute to five minutes apart, the level rises at once by
enough to be a refuel, and then it stays up until six minutes after the first one. -/
structure StepFill (asked : Range) (leastIncrease : Rat) (shortest : Int)
    (samples : List (Sample Rat)) (a b : Sample Rat) : Prop where
  /-- The samples are neighbours in the series. -/
  neighbours : [a, b] <:+: samples
  /-- Both lie in the asked range. -/
  start_le : asked.start ≤ a.time
  le_stop : b.time ≤ asked.stop
  /-- They are a minute apart at least. -/
  minute_le : Span.minutes 1 ≤ b.time - a.time
  /-- They are five minutes apart at most. -/
  le_window : b.time - a.time ≤ Span.minutes 5
  /-- The first level is not zero. -/
  not_empty : 1e-6 ≤ a.value
  /-- The rise in percentage points. -/
  rise : 20 ≤ b.value - a.value
  /-- The rise in percent of the first level. -/
  increase : leastIncrease < (b.value - a.value) / a.value * 100
  /-- The samples are so many seconds apart. -/
  long : Span.seconds shortest ≤ b.time - a.time
  /-- No sample shortly after the second one is below it. -/
  stays : ∀ s ∈ samples, b.time < s.time → s.time.nanos < a.time.nanos + Span.minutes 6 →
    b.value ≤ s.value

theorem StepFill.lt_value (h : StepFill asked leastIncrease shortest samples a b) :
    a.value < b.value := by linarith [h.rise]

theorem StepFill.time_le (h : StepFill asked leastIncrease shortest samples a b) :
    a.time ≤ b.time := by
  have hminute := (Instant.le_sub_iff _ _ _).1 h.minute_le
  rw [Instant.le_iff]
  simp only [Span.minutes, Span.seconds] at hminute
  omega

/-! ## The window that shows a fill -/

/-- A level that is reached, or passed, is above the least increase as well. -/
theorem tooFlat_eq_false {first last reached : Rat} (hfirst : 1e-6 ≤ first)
    (hreached : reached ≤ last) (h : leastIncrease < (reached - first) / first * 100) :
    tooFlat leastIncrease first last = false := by
  have hpos : 0 < first := lt_of_lt_of_le (by norm_num) hfirst
  have hle : (reached - first) / first * 100 ≤ (last - first) / first * 100 := by gcongr
  have hhundred : (100.0 : Rat) = 100 := by norm_num
  rw [tooFlat, decide_eq_false_iff_not]
  show ¬ (last - first) / first * (100.0 : Rat) ≤ leastIncrease
  rw [hhundred]
  exact not_le.2 (lt_of_lt_of_le h hle)

/-- The cursor of a window that starts between two neighbours is at the first of them. -/
theorem cursorUpTo_neighbours {t : Instant} {before after : List (Sample Rat)}
    (hbefore : ∀ s ∈ before ++ [a], s.time ≤ t) (hafter : t < b.time) :
    cursorUpTo t (before ++ [a, b] ++ after) = some ⟨before.reverse, a, b :: after⟩ := by
  have hsplit : before ++ [a, b] ++ after = (before ++ [a]) ++ b :: after := by simp
  have hnot : ¬ decide (b.time ≤ t) = true := by
    rw [decide_eq_true_eq]
    exact Instant.not_le.2 hafter
  have hupTo : Series.upTo t (b :: after) = [] := List.takeWhile_cons_of_neg hnot
  have hdrop : (b :: after).dropWhile (fun s => decide (s.time ≤ t)) = b :: after :=
    List.dropWhile_cons_of_neg hnot
  rw [cursorUpTo, hsplit, Series.upTo_append hbefore, hupTo, List.append_nil,
    List.dropWhile_append_of_pos fun s hs => decide_eq_true (hbefore s hs), hdrop,
    List.reverse_append]
  rfl

/-- The level at the end of the window is not below the second sample. -/
theorem StepFill.le_levelAtEnd (h : StepFill asked leastIncrease shortest samples a b)
    {before after : List (Sample Rat)} (hsamples : samples = before ++ [a, b] ++ after)
    (hafter : ∀ s ∈ after, b.time < s.time) {stop : Instant} (hstop : b.time ≤ stop)
    (hsoon : stop.nanos < a.time.nanos + Span.minutes 6) :
    b.value ≤ levelAtEnd stop ⟨before.reverse, a, b :: after⟩ := by
  rw [levelAtEnd, Series.upTo, List.takeWhile_cons_of_pos (by simpa using hstop),
    List.getLast?_cons, Option.getD_some]
  cases hlast : (after.takeWhile fun s => decide (s.time ≤ stop)).getLast? with
  | none => exact le_refl _
  | some s =>
      have hmem := List.mem_of_getLast? hlast
      have hs : s ∈ after := (List.takeWhile_sublist _).subset hmem
      have hstime : s.time ≤ stop :=
        of_decide_eq_true (List.all_eq_true.1 List.all_takeWhile s hmem)
      refine h.stays s ?_ (hafter s hs) (lt_of_le_of_lt hstime hsoon)
      rw [hsamples]
      exact List.mem_append_right _ hs

/-- A window that starts with the first sample, and reaches the second one, shows a refuel that
spans both. -/
theorem StepFill.exists_inWindow (h : StepFill asked leastIncrease shortest samples a b)
    {before after : List (Sample Rat)} (hsamples : samples = before ++ [a, b] ++ after)
    (hbefore : ∀ s ∈ before, s.time < a.time) (hafter : ∀ s ∈ after, b.time < s.time)
    {stop : Instant} (hstop : b.time ≤ stop) (hsoon : stop.nanos < a.time.nanos + Span.minutes 6) :
    ∃ r, inWindow stop leastIncrease (Span.seconds shortest) ⟨before.reverse, a, b :: after⟩ =
      some r ∧ (⟨a.time, b.time⟩ : Range).Within r := by
  have hlimit : b.time ≤ stop + peakSearch :=
    Instant.le_trans hstop (Int.le_add_of_nonneg_right (by decide))
  have hempty : ¬ a.value < leastStart := not_lt.2 h.not_empty
  have hsteep := tooFlat_eq_false h.not_empty (h.le_levelAtEnd hsamples hafter hstop hsoon)
    h.increase
  obtain ⟨front, low, climb, htrough, hmem, hlast, hclimbs⟩ :=
    Cursor.exists_trough_eq stop before after h.lt_value
  have htimes : ∀ s ∈ low :: climb, s.time ≤ a.time := by
    intro s hs
    rcases List.mem_append.1 (hmem s hs) with hs | hs
    · exact Int.le_of_lt (hbefore s hs)
    · rw [List.mem_singleton.1 hs]
      exact Int.le_refl _
  -- from the trough the search climbs to the first sample, and from there to the second one
  have hpeak : Cursor.peak (stop + peakSearch) low (climb ++ b :: after) =
      Cursor.peak (stop + peakSearch) b after := by
    have hclimb : ∀ s ∈ climb, s.time ≤ stop + peakSearch := fun s hs =>
      Instant.le_trans (htimes s (List.mem_cons_of_mem _ hs)) (Instant.le_trans h.time_le hlimit)
    rw [Cursor.peak_climb hclimbs hclimb hlast, Cursor.peak, if_neg (Instant.not_lt.2 hlimit),
      if_pos h.lt_value]
  have hlow := htimes low List.mem_cons_self
  have htop : b.time ≤ (Cursor.peak (stop + peakSearch) b after).time := by
    rcases List.mem_cons.1 (Cursor.peak_mem (stop + peakSearch) b after) with heq | hs
    · rw [heq]
      exact Int.le_refl _
    · exact Int.le_of_lt (hafter _ hs)
  refine ⟨⟨low.time, (Cursor.peak (stop + peakSearch) b after).time⟩, ?_, hlow, htop⟩
  simp only [inWindow, hempty, hsteep, htrough, hpeak, if_false, Bool.false_eq_true]
  refine if_pos ⟨?_, ?_⟩
  · have htwenty : (20.0 : Rat) = 20 := by norm_num
    have hlevel := hclimbs.le_getLast hlast
    have hpeaked := Cursor.le_peak (stop + peakSearch) b after
    show (20.0 : Rat) ≤ _
    rw [htwenty]
    linarith [h.rise]
  · have hlong := (Instant.le_sub_iff _ _ _).1 h.long
    rw [Instant.le_iff] at hlow htop
    refine (Instant.le_sub_iff _ _ _).2 ?_
    show low.time.nanos + _ ≤ (Cursor.peak (stop + peakSearch) b after).time.nanos
    omega

/-- One of the windows of the scan starts in the minute after the first sample. So it starts before
the second sample, reaches it, and ends within six minutes of the first one. -/
theorem StepFill.exists_windowStart (h : StepFill asked leastIncrease shortest samples a b) :
    ∃ w ∈ windowStarts asked, a.time ≤ w ∧ w < b.time ∧ b.time ≤ w + windowLength ∧
      (w + windowLength).nanos < a.time.nanos + Span.minutes 6 := by
  have hminute := (Instant.le_sub_iff _ _ _).1 h.minute_le
  have hwindow := (Instant.sub_le_iff _ _ _).1 h.le_window
  have hfirst := h.start_le
  have hlast := h.le_stop
  have halign := (asked.start - windowLength).alignDown_le (show 0 < stepSeconds by decide)
  simp only [Instant.le_iff, Instant.nanos_sub, windowLength, Span.minutes, Span.seconds]
    at hminute hwindow hfirst hlast halign
  obtain ⟨w, hw, haw, hwa⟩ : ∃ w ∈ windowStarts asked, a.time ≤ w ∧
      w.nanos < a.time.nanos + Span.seconds stepSeconds := by
    refine Instant.exists_mem_every (by decide) ?_ ?_
    · rw [Instant.le_iff]
      simp only [windowLength, Span.minutes, Span.seconds] at *
      omega
    · simp only [Instant.nanos_add, stepSeconds, windowLength, Span.minutes, Span.seconds]
      omega
  have hafter := (Instant.le_iff _ _).1 haw
  simp only [stepSeconds, Span.seconds] at hwa
  refine ⟨w, hw, haw, ?_, ?_, ?_⟩
  · rw [Instant.lt_iff]
    omega
  · simp only [Instant.le_iff, Instant.nanos_add, windowLength, Span.minutes, Span.seconds]
    omega
  · simp only [Instant.nanos_add, windowLength, Span.minutes, Span.seconds]
    omega

/-- One of the windows of the scan shows such a refuel. -/
theorem StepFill.exists_find (h : StepFill asked leastIncrease shortest samples a b)
    (hsorted : samples.Pairwise fun s t => s.time < t.time) :
    ∃ r ∈ finds asked leastIncrease (Span.seconds shortest) samples,
      (⟨a.time, b.time⟩ : Range).Within r := by
  obtain ⟨before, after, hsamples⟩ := h.neighbours
  have hsplit := hsamples ▸ hsorted
  obtain ⟨hpair, -, hafter⟩ := List.pairwise_append.1 hsplit
  obtain ⟨-, -, hbefore⟩ := List.pairwise_append.1 hpair
  obtain ⟨w, hw, haw, hnext, hreach, hsoon⟩ := h.exists_windowStart
  have hupTo : ∀ s ∈ before ++ [a], s.time ≤ w := by
    intro s hs
    rcases List.mem_append.1 hs with hs | hs
    · exact Int.le_of_lt (lt_of_lt_of_le (hbefore s hs a List.mem_cons_self) haw)
    · rwa [List.mem_singleton.1 hs]
  obtain ⟨r, hr, hspans⟩ := h.exists_inWindow hsamples.symm
    (fun s hs => hbefore s hs a List.mem_cons_self) (fun s hs => hafter b (by simp) s hs)
    hreach hsoon
  refine ⟨r, ?_, hspans⟩
  rw [finds_eq_filterMap, ← hsamples]
  refine List.mem_filterMap.2 ⟨w, hw, ?_⟩
  rw [shown, cursorUpTo_neighbours hupTo hnext]
  exact hr

/-! ## The segment of a fill -/

/-- A step fill is never missed: one of the segments spans both samples. -/
theorem exists_segment_of_stepFill (hsorted : samples.Pairwise fun s t => s.time < t.time)
    (h : StepFill asked leastIncrease shortest samples a b) :
    ∃ s ∈ segments asked leastIncrease (Span.seconds shortest) samples, ∃ stop,
      s.stop = some stop ∧ s.start ≤ a.time ∧ b.time ≤ stop := by
  obtain ⟨r, hr, hspans⟩ := h.exists_find hsorted
  obtain ⟨m, hm, hrm⟩ : ∃ m ∈ Range.merge 0 _, r.Within m := Range.exists_within_mergeWith hr
  have hmeet : (⟨a.time, b.time⟩ : Range).Within (asked.meet m) := by
    obtain ⟨hstart, hstop⟩ := hspans.trans hrm
    exact ⟨Int.max_le.2 ⟨hstart, h.start_le⟩, Int.le_min.2 ⟨hstop, h.le_stop⟩⟩
  have hstart : (asked.meet m).start.nanos ≤ a.time.nanos := hmeet.1
  have hstop : b.time.nanos ≤ (asked.meet m).stop.nanos := hmeet.2
  have hminute := (Instant.le_sub_iff _ _ _).1 h.minute_le
  have hlong := (Instant.le_sub_iff _ _ _).1 h.long
  have hwindow := (Instant.sub_le_iff _ _ _).1 h.le_window
  simp only [Span.minutes, Span.seconds] at hminute hlong hwindow
  have hlt : (asked.meet m).start < (asked.meet m).stop := by
    rw [Instant.lt_iff]
    omega
  have hlength : Span.seconds shortest ≤ (asked.meet m).length := by
    refine (Instant.le_sub_iff _ _ _).2 ?_
    simp only [Span.seconds]
    omega
  have hshortest : shortest ≤ Segment.longest := by
    simp only [Segment.longest]
    omega
  have hforward : 0 ≤ (asked.meet m).length := Int.sub_nonneg_of_le (Int.le_of_lt hlt)
  have htwo : ¬ samples.length < 2 := by
    have hle := h.neighbours.length_le
    simp only [List.length_cons, List.length_nil] at hle
    omega
  refine ⟨⟨(asked.meet m).start, some (asked.meet m).stop, Segment.durationOf (asked.meet m).length,
    false, decide (m.start < asked.start)⟩, ?_, _, rfl, hmeet⟩
  rw [segments, if_neg htwo, Segment.clip_false]
  refine List.mem_filter.2 ⟨List.mem_filterMap.2 ⟨m, hm, ?_⟩, decide_eq_true ?_⟩
  · exact Segment.clipped_eq_some_iff.2 ⟨hlt, rfl⟩
  · exact (Segment.seconds_le_seconds_durationOf_iff hshortest hforward).2 hlength

/-- An hour and a minute. -/
def fillHour : Range := ⟨.ofSeconds 0, .ofSeconds 3660⟩

/-- A tank that loses a little, is filled by 60 points between two samples three minutes apart, and
settles later. -/
def fillLog : List (Sample Rat) :=
  [⟨.ofSeconds 600, 21⟩, ⟨.ofSeconds 1190, 20⟩, ⟨.ofSeconds 1370, 80⟩, ⟨.ofSeconds 1430, 81⟩,
    ⟨.ofSeconds 1560, 78⟩]

theorem stepFill_fillLog :
    StepFill fillHour 30 60 fillLog ⟨.ofSeconds 1190, 20⟩ ⟨.ofSeconds 1370, 80⟩ where
  neighbours := ⟨[⟨.ofSeconds 600, 21⟩], [⟨.ofSeconds 1430, 81⟩, ⟨.ofSeconds 1560, 78⟩], rfl⟩
  start_le := by decide
  le_stop := by decide
  minute_le := by decide
  le_window := by decide
  not_empty := by norm_num
  rise := by norm_num
  increase := by norm_num
  long := by decide
  stays := by decide +kernel

theorem exists_segment_fillLog :
    (fillLog.Pairwise fun s t => s.time < t.time) ∧
      StepFill fillHour 30 60 fillLog ⟨.ofSeconds 1190, 20⟩ ⟨.ofSeconds 1370, 80⟩ ∧
      ∃ s ∈ segments fillHour 30 (Span.seconds 60) fillLog, ∃ stop, s.stop = some stop ∧
        s.start ≤ .ofSeconds 1190 ∧ .ofSeconds 1370 ≤ stop :=
  ⟨by decide, stepFill_fillLog, exists_segment_of_stepFill (by decide) stepFill_fillLog⟩

end Refuel

end Telematics
