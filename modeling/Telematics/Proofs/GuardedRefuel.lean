import Telematics.Proofs.DetectedSegments
import Telematics.Proofs.GuardedSegments

/-!
# Guarded refuels

Refuels in guarded steps. The walks to the trough and to the peak go over positions of the list of
samples; a `Cursor` stands at the position that has as many samples before it, so each walk reads
only inside the list and ends where the walk of the cursor does (`sink_eq`, `fallBack_eq`,
`peak_eq`). The windows that slide over the samples are independent of each other
(`finds_eq_filterMap`). The reads reach 35 minutes beyond the asked range, and the last search for a
peak 40 minutes, which an accepted request has room for (`refuel_eq`).
-/

set_option autoImplicit false

namespace Telematics

variable {α : Type}

/-! ## Cursors -/

/-- A cursor stands at the position that has as many samples before it. -/
theorem Cursor.drop_toList (earlier later : List (Sample α)) (here : Sample α) :
    (earlier.reverse ++ here :: later).drop earlier.length = here :: later :=
  List.drop_left' List.length_reverse

namespace Refuel

/-! ## Windows one by one -/

/-- The cursor at the last sample at or before an instant. -/
def cursorUpTo (t : Instant) (samples : List (Sample α)) : Option (Cursor α) :=
  cursorAt (Series.upTo t samples).reverse (samples.dropWhile fun s => decide (s.time ≤ t))

theorem advance_eq (t : Instant) (earlier later : List (Sample α)) :
    advance t earlier later = ((Series.upTo t later).reverse ++ earlier,
      later.dropWhile fun s => decide (s.time ≤ t)) := by
  induction later generalizing earlier with
  | nil => rfl
  | cons s later ih =>
      rw [advance]
      split
      · rename_i hle
        rw [ih, Series.upTo, Series.upTo, List.takeWhile_cons_of_pos (by simpa using hle),
          List.dropWhile_cons_of_pos (by simpa using hle), List.reverse_cons, List.append_assoc]
        rfl
      · rename_i hlt
        rw [Series.upTo, List.takeWhile_cons_of_neg (by simpa using hlt),
          List.dropWhile_cons_of_neg (by simpa using hlt)]
        rfl

/-- Where a sample lies at or before an instant there is a cursor at the last such sample. -/
theorem exists_cursorUpTo {t : Instant} {samples : List (Sample α)} {n : Nat}
    (h : Series.indexAtOrBefore t samples = some n) :
    ∃ earlier here later, cursorUpTo t samples = some ⟨earlier, here, later⟩ ∧
      samples = earlier.reverse ++ here :: later ∧ earlier.length = n ∧
      ∀ s ∈ earlier.reverse ++ [here], s.time ≤ t := by
  have hlength := Series.indexAtOrBefore_eq_some_iff.1 h
  have hsplit :
      Series.upTo t samples ++ samples.dropWhile (fun s => decide (s.time ≤ t)) = samples :=
    List.takeWhile_append_dropWhile
  cases hrev : (Series.upTo t samples).reverse with
  | nil =>
      rw [List.reverse_eq_nil_iff.1 hrev] at hlength
      exact absurd hlength (by simp)
  | cons here earlier =>
      have hupTo : Series.upTo t samples = earlier.reverse ++ [here] := by
        rw [← List.reverse_reverse (Series.upTo t samples), hrev, List.reverse_cons]
      refine ⟨earlier, here, samples.dropWhile fun s => decide (s.time ≤ t), ?_, ?_, ?_, ?_⟩
      · rw [cursorUpTo, hrev]
        rfl
      · rw [hupTo, List.append_assoc] at hsplit
        exact hsplit.symm
      · rw [hupTo, List.length_append, List.length_reverse] at hlength
        exact Nat.add_right_cancel hlength
      · intro s hs
        rw [← hupTo] at hs
        exact of_decide_eq_true (List.all_eq_true.1 List.all_takeWhile s hs)

/-- The last sample up to an instant at or after a cursor is found at a position. -/
theorem exists_lookup_at_end {t : Instant} {earlier : List (Sample α)} {here : Sample α}
    (later : List (Sample α)) (h : ∀ s ∈ earlier.reverse ++ [here], s.time ≤ t) :
    ∃ n, Series.indexAtOrBefore t (earlier.reverse ++ here :: later) = some n ∧
      (earlier.reverse ++ here :: later)[n]? =
        some (((Series.upTo t later).getLast?).getD here) := by
  have hupTo : Series.upTo t (earlier.reverse ++ here :: later) =
      earlier.reverse ++ here :: Series.upTo t later := by
    have happend := Series.upTo_append h later
    rwa [List.append_assoc, List.append_assoc, List.singleton_append,
      List.singleton_append] at happend
  have hindex : Series.indexAtOrBefore t (earlier.reverse ++ here :: later) =
      some (earlier.length + (Series.upTo t later).length) := by
    rw [Series.indexAtOrBefore_eq_some_iff, hupTo]
    simp [Nat.add_assoc]
  refine ⟨_, hindex, ?_⟩
  rw [Series.getElem?_of_indexAtOrBefore hindex, hupTo, List.getLast?_append, List.getLast?_cons]
  rfl

variable [Level α]

/-- The refuel that the window from an instant on shows, if any. -/
def shown (leastIncrease : α) (shortest : Span) (samples : List (Sample α)) (start : Instant) :
    Option Range :=
  (cursorUpTo start samples).bind (inWindow (start + windowLength) leastIncrease shortest)

/-- Windows in order are looked at one by one: what the earlier ones passed lies before each. -/
theorem slide_eq_filterMap (leastIncrease : α) (minDuration : Span) {starts : List Instant}
    (hstarts : starts.Pairwise fun a b => a < b) {earlier later : List (Sample α)}
    (hpassed : ∀ start ∈ starts, ∀ s ∈ earlier, s.time ≤ start) :
    slide leastIncrease minDuration earlier later starts =
      starts.filterMap (shown leastIncrease minDuration (earlier.reverse ++ later)) := by
  induction starts generalizing earlier later with
  | nil => rfl
  | cons start starts ih =>
      obtain ⟨hstart, hstarts⟩ := List.pairwise_cons.1 hstarts
      obtain ⟨hpassed, -⟩ := List.forall_mem_cons.1 hpassed
      have hall : ∀ s ∈ earlier.reverse, decide (s.time ≤ start) = true :=
        fun s hs => decide_eq_true (hpassed s (List.mem_reverse.1 hs))
      have hcursor : cursorUpTo start (earlier.reverse ++ later) =
          cursorAt ((Series.upTo start later).reverse ++ earlier)
            (later.dropWhile fun s => decide (s.time ≤ start)) := by
        rw [cursorUpTo, Series.upTo, List.takeWhile_append_of_pos hall,
          List.dropWhile_append_of_pos hall, List.reverse_append, List.reverse_reverse]
        rfl
      have hrest : ((Series.upTo start later).reverse ++ earlier).reverse ++
          (later.dropWhile fun s => decide (s.time ≤ start)) = earlier.reverse ++ later := by
        rw [List.reverse_append, List.reverse_reverse, List.append_assoc]
        exact congrArg _ List.takeWhile_append_dropWhile
      have hnext : ∀ next ∈ starts, ∀ s ∈ (Series.upTo start later).reverse ++ earlier,
          s.time ≤ next := by
        intro next hnext s hs
        have hle : s.time ≤ start := by
          rcases List.mem_append.1 hs with hs | hs
          · exact of_decide_eq_true
              (List.all_eq_true.1 List.all_takeWhile s (List.mem_reverse.1 hs))
          · exact hpassed s hs
        exact Instant.le_trans hle (Int.le_of_lt (hstart next hnext))
      rw [slide, advance_eq]
      simp only
      rw [ih hstarts hnext, hrest, ← hcursor, List.filterMap_eq_flatMap_toList,
        List.filterMap_eq_flatMap_toList, List.flatMap_cons, shown]

theorem finds_eq_filterMap (asked : Range) (leastIncrease : α) (minDuration : Span)
    (samples : List (Sample α)) :
    finds asked leastIncrease minDuration samples =
      (windowStarts asked).filterMap (shown leastIncrease minDuration samples) :=
  slide_eq_filterMap leastIncrease minDuration (Instant.pairwise_every (by decide)) (by simp)

end Refuel

namespace Guarded

variable [Level α]

/-! ## Walks over positions -/

/-- Moves on from a position while the next sample is not after an instant and not higher. -/
def sink (samples : List (Sample α)) (limit : Instant) (i : Nat) : Option Nat :=
  if _hnext : i + 1 < samples.length then do
    let next ← samples[i + 1]?
    if next.time ≤ limit then
      let here ← samples[i]?
      if next.value ≤ here.value then sink samples limit (i + 1) else return i
    else return i
  else return i
termination_by samples.length - i

/-- Moves back from a position while the sample before it is lower. -/
def fallBack (samples : List (Sample α)) : Nat → Option Nat
  | 0 => some 0
  | i + 1 => do
    let before ← samples[i]?
    let here ← samples[i + 1]?
    if before.value < here.value then fallBack samples i else return i + 1

/-- The position of the last low point before a rise. -/
def trough (samples : List (Sample α)) (limit : Instant) (i : Nat) : Option Nat := do
  let sunk ← sink samples limit i
  fallBack samples sunk

/-- The position of the first highest sample, up to an instant and as long as the level does not
fall by more than one below the highest so far, which is at position `best`; `i` is the position of
the first of the samples that are left. -/
def peak (samples : List (Sample α)) (limit : Instant) (best i : Nat) :
    List (Sample α) → Option Nat
  | [] => some best
  | s :: later =>
    if limit < s.time then some best
    else do
      let highest ← samples[best]?
      if highest.value < s.value then peak samples limit i (i + 1) later
      else if s.value < highest.value - 1.0 then return best
      else peak samples limit best (i + 1) later

/-- The refuel that a window shows, if any. -/
def inWindow (samples : List (Sample α)) (start stop : Instant) (leastIncrease : α)
    (shortest : Span) : Option (Option Range) :=
  match Series.indexAtOrBefore start samples, Series.indexAtOrBefore stop samples with
  | some first, some last => do
    let before ← samples[first]?
    if before.value < Refuel.leastStart then return none
    else
      let after ← samples[last]?
      if Refuel.tooFlat leastIncrease before.value after.value then return none
      else
        let foot ← trough samples stop first
        let search ← seconds (60 * 30)
        let limit ← later stop search
        let top ← peak samples limit foot (foot + 1) (samples.drop (foot + 1))
        let low ← samples[foot]?
        let high ← samples[top]?
        let found : Range := ⟨low.time, high.time⟩
        return if Refuel.leastRise ≤ high.value - low.value ∧ shortest ≤ found.length
          then some found else none
  | _, _ => return none

/-- The refuels that samples show. -/
def finds (asked : Range) (leastIncrease : α) (shortest : Span) (samples : List (Sample α)) :
    Option (List Range) := do
  let window ← seconds (60 * 5)
  let step ← seconds Refuel.stepSeconds
  let scanStop ← later asked.stop window
  let back ← earlier asked.start window
  let starts ← scan step (back.alignDown Refuel.stepSeconds) scanStop
  collect (fun start => do
    let stop ← later start window
    inWindow samples start stop leastIncrease shortest) starts

/-- Refuels from the fuel level. -/
def refuel (log : Log) (r : Request) : Option (List Segment) := do
  let margin ← seconds (60 * 35)
  let first ← earlier r.asked.start margin
  let last ← later r.asked.stop margin
  let samples := log.levels r.token Signal.fuelLevel ⟨first, last⟩
  if samples.length < 2 then return []
  else
    let shortest ← minSegment r.tuning Refuel.defaultMinSegment
    let found ← finds r.asked (r.tuning.minIncrease Refuel.defaultIncrease) shortest samples
    clip r.asked shortest false (Range.merge 0 found)

/-! ## Walks of a cursor -/

theorem sink_eq (limit : Instant) (earlier later : List (Sample α)) (here : Sample α) :
    sink (earlier.reverse ++ here :: later) limit earlier.length =
        some (Cursor.sink limit earlier here later).earlier.length ∧
      (Cursor.sink limit earlier here later).toList = earlier.reverse ++ here :: later := by
  -- the loop over positions moves where the cursor moves, over a list that stays the same
  induction later generalizing earlier here with
  | nil =>
      rw [sink, dif_neg (by simp)]
      exact ⟨rfl, rfl⟩
  | cons next later ih =>
      obtain ⟨hhere, hdrop⟩ := getElem?_of_drop (Cursor.drop_toList earlier (next :: later) here)
      obtain ⟨hnext, -⟩ := getElem?_of_drop hdrop
      have hmoved := ih (here :: earlier) next
      rw [List.reverse_cons, List.append_assoc, List.singleton_append, List.length_cons] at hmoved
      rw [sink, dif_pos (by simp), hnext, hhere, Cursor.sink]
      by_cases htime : next.time ≤ limit
      · by_cases hvalue : next.value ≤ here.value
        · simpa [htime, hvalue] using hmoved
        · simp [htime, hvalue, Cursor.toList]
      · simp [htime, Cursor.toList]

theorem fallBack_eq (earlier later : List (Sample α)) (here : Sample α) :
    fallBack (earlier.reverse ++ here :: later) earlier.length =
        some (Cursor.fallBack here later earlier).earlier.length ∧
      (Cursor.fallBack here later earlier).toList = earlier.reverse ++ here :: later := by
  induction earlier generalizing here later with
  | nil => exact ⟨rfl, rfl⟩
  | cons before earlier ih =>
      have hmoved := ih (here :: later) before
      obtain ⟨hbefore, hdrop⟩ :=
        getElem?_of_drop (Cursor.drop_toList earlier (here :: later) before)
      obtain ⟨hhere, -⟩ := getElem?_of_drop hdrop
      rw [List.reverse_cons, List.append_assoc, List.singleton_append, List.length_cons]
      rw [fallBack, hbefore, hhere, Cursor.fallBack]
      by_cases hvalue : before.value < here.value
      · simpa [hvalue] using hmoved
      · simp [hvalue, Cursor.toList]

theorem trough_eq (limit : Instant) (earlier later : List (Sample α)) (here : Sample α) :
    trough (earlier.reverse ++ here :: later) limit earlier.length =
        some (Cursor.trough limit ⟨earlier, here, later⟩).earlier.length ∧
      (Cursor.trough limit ⟨earlier, here, later⟩).toList = earlier.reverse ++ here :: later := by
  obtain ⟨hsink, hsunk⟩ := sink_eq limit earlier later here
  rw [trough, hsink, ← hsunk]
  exact fallBack_eq _ _ _

theorem peak_eq {samples : List (Sample α)} (limit : Instant) {later : List (Sample α)}
    {best : Sample α} {i k : Nat} (hbest : samples[i]? = some best)
    (hlater : samples.drop k = later) :
    ∃ j, peak samples limit i k later = some j ∧
      samples[j]? = some (Cursor.peak limit best later) := by
  induction later generalizing best i k with
  | nil => exact ⟨i, rfl, hbest⟩
  | cons s later ih =>
      obtain ⟨hs, hrest⟩ := getElem?_of_drop hlater
      rw [peak, Cursor.peak]
      split
      · exact ⟨i, rfl, hbest⟩
      · rw [hbest]
        simp only [Option.bind_eq_bind, Option.bind_some]
        split
        · exact ih hs hrest
        · split
          · exact ⟨i, rfl, hbest⟩
          · exact ih hbest hrest

/-- A window is looked at as from the cursor at its start. -/
theorem inWindow_eq {start stop : Instant} (hle : start ≤ stop)
    (hsearch : (stop + Refuel.peakSearch).InCalendar) (leastIncrease : α) (shortest : Span)
    (samples : List (Sample α)) :
    inWindow samples start stop leastIncrease shortest =
      some ((Refuel.cursorUpTo start samples).bind
        (Refuel.inWindow stop leastIncrease shortest)) := by
  cases hfirst : Series.indexAtOrBefore start samples with
  | none =>
      rw [inWindow, hfirst, Refuel.cursorUpTo, Series.upTo_eq_nil_of_indexAtOrBefore hfirst]
      rfl
  | some first =>
      obtain ⟨earlier, here, later, hcursor, rfl, rfl, htimes⟩ := Refuel.exists_cursorUpTo hfirst
      obtain ⟨last, hlast, htop⟩ := Refuel.exists_lookup_at_end later
        fun s hs => Instant.le_trans (htimes s hs) hle
      obtain ⟨hfoot, -⟩ := getElem?_of_drop (Cursor.drop_toList earlier later here)
      rw [inWindow, hfirst, hlast, hcursor]
      simp only [hfoot, htop, Option.bind_eq_bind, Option.bind_some]
      rw [Refuel.inWindow]
      simp only
      split
      · rfl
      · show (if Refuel.tooFlat leastIncrease here.value
            (((Series.upTo stop later).getLast?).getD here).value then _ else _) = _
        rw [Refuel.levelAtEnd]
        split
        · rfl
        · obtain ⟨hwalk, hlist⟩ := trough_eq stop earlier later here
          have hsearch' : seconds (60 * 30) = some Refuel.peakSearch :=
            seconds_eq (by decide) (by decide)
          -- the rest is said of the cursor at the trough
          generalize Cursor.trough stop ⟨earlier, here, later⟩ = low at hwalk hlist ⊢
          have hdrop : low.toList.drop low.earlier.length = low.here :: low.later :=
            Cursor.drop_toList low.earlier low.later low.here
          obtain ⟨hlow, hlater⟩ := getElem?_of_drop hdrop
          obtain ⟨top, hpeak, htop⟩ := peak_eq (stop + Refuel.peakSearch) hlow hlater
          rw [hwalk, ← hlist, hsearch']
          simp only [Option.bind_some, later_eq hsearch, hlater, hpeak, hlow, htop]
          rfl

/-! ## All windows -/

variable {now : Instant} {r : Request}

/-- A window, and the search for a peak after it, end inside the margins. -/
theorem inCalendar_of_windowStart (hr : r.Roomy now) {t : Instant}
    (hfirst : (r.asked.start - Refuel.windowLength).alignDown Refuel.stepSeconds ≤ t)
    (hlast : t < r.asked.stop + Refuel.windowLength) {n : Int} (h0 : 0 ≤ n) (h : n ≤ 3600) :
    (t + Span.seconds n).InCalendar := by
  have halign := (r.asked.start - Refuel.windowLength).lt_alignDown_add
    (show 0 < Refuel.stepSeconds by decide)
  rw [Instant.le_iff] at hfirst
  rw [Instant.lt_iff] at hlast
  apply hr.inCalendar <;> rw [Instant.nanos_add] <;>
    simp only [Refuel.windowLength, Refuel.stepSeconds, Span.minutes, Span.seconds,
      Instant.nanos_add, Instant.nanos_sub] at * <;> omega

theorem finds_eq (hr : r.Roomy now) (leastIncrease : α) (shortest : Span)
    (samples : List (Sample α)) :
    finds r.asked leastIncrease shortest samples =
      some (Refuel.finds r.asked leastIncrease shortest samples) := by
  have hwindow : seconds (60 * 5) = some Refuel.windowLength := seconds_eq (by decide) (by decide)
  have hstep : seconds Refuel.stepSeconds = some (Span.seconds Refuel.stepSeconds) :=
    seconds_eq (by decide) (by decide)
  have hstop : later r.asked.stop Refuel.windowLength =
      some (r.asked.stop + Refuel.windowLength) := later_stop hr (by decide) (by decide)
  have hstart : earlier r.asked.start Refuel.windowLength =
      some (r.asked.start - Refuel.windowLength) := earlier_start hr (by decide) (by decide)
  have hstarts : scan (Span.seconds Refuel.stepSeconds)
        ((r.asked.start - Refuel.windowLength).alignDown Refuel.stepSeconds)
        (r.asked.stop + Refuel.windowLength) = some (Refuel.windowStarts r.asked) :=
    scan_eq (by decide) fun t hfirst hlast =>
      inCalendar_of_windowStart hr hfirst hlast (by decide) (by decide)
  simp only [finds, hwindow, hstep, hstop, hstart, hstarts, Option.bind_eq_bind, Option.bind_some]
  rw [Refuel.finds_eq_filterMap]
  apply collect_eq
  intro start hmem
  obtain ⟨hfirst, hlast⟩ := Instant.bounds_of_mem_every (by decide) hmem
  have hend : (start + Refuel.windowLength).InCalendar :=
    inCalendar_of_windowStart hr hfirst hlast (n := 60 * 5) (by decide) (by decide)
  have hboth : start + Refuel.windowLength + Refuel.peakSearch =
      start + Span.seconds (60 * 5 + 60 * 30) :=
    Instant.eq_of_nanos_eq (Int.add_assoc start.nanos _ _)
  have hsearch : (start + Refuel.windowLength + Refuel.peakSearch).InCalendar := by
    rw [hboth]
    exact inCalendar_of_windowStart hr hfirst hlast (by decide) (by decide)
  rw [later_eq hend]
  exact inWindow_eq (Int.le_add_of_nonneg_right (by decide)) hsearch _ _ _

theorem refuel_eq (hr : r.Roomy now) (log : Log) :
    refuel log r = some (Refuel.segments r.asked (r.tuning.minIncrease Refuel.defaultIncrease)
      (r.tuning.minSegment Refuel.defaultMinSegment) (log.fuelLevels r)) := by
  have hmargin : seconds (60 * 35) = some Refuel.readMargin := seconds_eq (by decide) (by decide)
  have hfirst : earlier r.asked.start Refuel.readMargin =
      some (r.asked.start - Refuel.readMargin) := earlier_start hr (by decide) (by decide)
  have hlast : later r.asked.stop Refuel.readMargin =
      some (r.asked.stop + Refuel.readMargin) := later_stop hr (by decide) (by decide)
  simp only [refuel, hmargin, hfirst, hlast, Option.bind_eq_bind, Option.bind_some, Refuel.segments]
  show (if (log.fuelLevels r).length < 2 then _ else _) = _
  split
  · rfl
  · rw [minSegment_eq hr.allowed (by decide), Option.bind_some, finds_eq hr, Option.bind_some]
    exact clip_eq hr.length_le _ _ _

end Guarded

end Telematics
