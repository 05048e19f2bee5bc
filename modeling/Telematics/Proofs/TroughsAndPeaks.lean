import Mathlib.Algebra.Order.Field.Rat
import Mathlib.Tactic.Linarith
import Mathlib.Tactic.NormNum
import Telematics.Proofs.GuardedRefuel

/-!
# Troughs and peaks

A window that shows a refuel shows it from a trough to a peak. The trough is not above the level at
the start of the window, and the sample before it is not lower (`Cursor.trough_le`,
`Cursor.trough_le_before`). The search for the peak keeps the highest sample so far; `Scanned` is
what it has seen, one sample more after each step (`Scanned.higher`, `Scanned.lower`). Where it
ends, nothing that it has not seen matters: the next sample is too late, or the level has settled
(`Scanned.peaked`). So the peak is the first highest sample from the trough on, without a drop of
more than one point on the way, and no sample is higher until the level settles or the search is
over (`finds_trough_to_peak`). The walks go over positions and never leave the list. Levels are
exact numbers here.
-/

set_option autoImplicit false

namespace Telematics

/-! ## The trough -/

namespace Cursor

/-- The walk down does not end above the sample from which it began. -/
theorem sink_le (limit : Instant) (earlier later : List (Sample Rat)) (here : Sample Rat) :
    (sink limit earlier here later).here.value ≤ here.value := by
  induction later generalizing earlier here with
  | nil => exact le_refl _
  | cons next later ih =>
      rw [sink]
      split
      · rename_i hdown
        exact (ih _ next).trans hdown.2
      · exact le_refl _

/-- Neither does the walk back. -/
theorem fallBack_le (earlier later : List (Sample Rat)) (here : Sample Rat) :
    (fallBack here later earlier).here.value ≤ here.value := by
  induction earlier generalizing here later with
  | nil => exact le_refl _
  | cons before earlier ih =>
      rw [fallBack]
      split
      · rename_i hlower
        exact (ih _ before).trans (le_of_lt hlower)
      · exact le_refl _

/-- The walk back ends where the sample before is not lower. -/
theorem fallBack_le_before (earlier later : List (Sample Rat)) (here : Sample Rat)
    {before : Sample Rat} {rest : List (Sample Rat)}
    (h : (fallBack here later earlier).earlier = before :: rest) :
    (fallBack here later earlier).here.value ≤ before.value := by
  induction earlier generalizing here later with
  | nil => exact absurd h (by simp [fallBack])
  | cons s earlier ih =>
      rw [fallBack] at h ⊢
      split at h
      · rename_i hlower
        rw [if_pos hlower]
        exact ih _ s h
      · rename_i hnot
        obtain ⟨rfl, -⟩ := List.cons.inj h
        rw [if_neg hnot]
        exact not_lt.1 hnot

/-- The sample before a cursor is at the position before it. -/
theorem exists_earlier_eq_cons {α : Type} {c : Cursor α} {k : Nat} {s : Sample α}
    (hk : k + 1 = c.earlier.length) (hs : c.toList[k]? = some s) :
    ∃ rest, c.earlier = s :: rest := by
  obtain ⟨earlier, here, later⟩ := c
  cases earlier with
  | nil => exact absurd hk (Nat.succ_ne_zero k)
  | cons before rest =>
      obtain rfl : k = rest.length := Nat.succ.inj hk
      have hdrop := drop_toList rest (here :: later) before
      have hlist : (before :: rest).reverse ++ here :: later =
          rest.reverse ++ before :: here :: later := by
        rw [List.reverse_cons, List.append_assoc, List.singleton_append]
      rw [toList, hlist, (Guarded.getElem?_of_drop hdrop).1] at hs
      exact ⟨rest, by rw [Option.some.inj hs]⟩

/-- The trough is not above the sample from which it was searched. -/
theorem trough_le (limit : Instant) (c : Cursor Rat) :
    (c.trough limit).here.value ≤ c.here.value :=
  (fallBack_le _ _ _).trans (sink_le _ _ _ _)

/-- The sample before the trough is not lower. -/
theorem trough_le_before (limit : Instant) (c : Cursor Rat) {before : Sample Rat}
    {rest : List (Sample Rat)} (h : (c.trough limit).earlier = before :: rest) :
    (c.trough limit).here.value ≤ before.value :=
  fallBack_le_before _ _ _ h

end Cursor

namespace Refuel

variable {samples later : List (Sample Rat)} {limit : Instant} {foot best top i : Nat}
  {highest high next : Sample Rat}

/-! ## The peak -/

/-- The search from a position has seen the samples up to another one; the highest of them is at
`best`. -/
structure Scanned (samples : List (Sample Rat)) (foot best i : Nat) (highest : Sample Rat) :
    Prop where
  eq : samples[best]? = some highest
  le : foot ≤ best
  lt : best < i
  /-- It is the first highest one. -/
  first : ∀ k s, foot ≤ k → k < best → samples[k]? = some s → s.value < highest.value
  rest : ∀ k s, best < k → k < i → samples[k]? = some s → s.value ≤ highest.value
  /-- No sample is more than one point below an earlier one. -/
  shallow : ∀ j k s t, foot ≤ j → j ≤ k → k < i → samples[j]? = some s → samples[k]? = some t →
    s.value - 1 ≤ t.value

/-- The sample at a position is the first highest one from another position on, the level does not
fall by more than one point on the way to it, and no later sample is higher before it does, or
before the search is over. -/
structure Peaked (samples : List (Sample Rat)) (limit : Instant) (foot top : Nat)
    (high : Sample Rat) : Prop where
  eq : samples[top]? = some high
  le : foot ≤ top
  first : ∀ k s, foot ≤ k → k < top → samples[k]? = some s → s.value < high.value
  shallow : ∀ j k s t, foot ≤ j → j ≤ k → k ≤ top → samples[j]? = some s → samples[k]? = some t →
    s.value - 1 ≤ t.value
  after : ∀ k s, top < k → samples[k]? = some s →
    (∀ j t, top < j → j ≤ k → samples[j]? = some t → t.time ≤ limit ∧ high.value - 1 ≤ t.value) →
    s.value ≤ high.value

namespace Scanned

/-- The search begins with the foot. -/
theorem start (h : samples[foot]? = some highest) :
    Scanned samples foot foot (foot + 1) highest where
  eq := h
  le := Nat.le_refl foot
  lt := Nat.lt_succ_self foot
  first := fun _ _ hle hlt _ => absurd hlt (Nat.not_lt.2 hle)
  rest := fun _ _ hlt hlt' _ => absurd hlt' (Nat.not_lt.2 hlt)
  shallow := by
    intro j k s t hfoot hle hlt hs ht
    obtain rfl : j = k := by omega
    obtain rfl := Option.some.inj (hs.symm.trans ht)
    linarith

/-- No sample that is seen is above the highest one. -/
theorem value_le (h : Scanned samples foot best i highest) {k : Nat} {s : Sample Rat}
    (hfoot : foot ≤ k) (hlt : k < i) (hs : samples[k]? = some s) : s.value ≤ highest.value := by
  rcases Nat.lt_trichotomy k best with hbefore | rfl | hafter
  · exact le_of_lt (h.first k s hfoot hbefore hs)
  · rw [Option.some.inj (hs.symm.trans h.eq)]
  · exact h.rest k s hafter hlt hs

/-- A sample that is not more than a point below the highest one is not more than a point below any
other. -/
theorem shallow_succ (h : Scanned samples foot best i highest) (hnext : samples[i]? = some next)
    (hclose : highest.value - 1 ≤ next.value) (j k : Nat) (s t : Sample Rat) (hfoot : foot ≤ j)
    (hle : j ≤ k) (hlt : k < i + 1) (hs : samples[j]? = some s) (ht : samples[k]? = some t) :
    s.value - 1 ≤ t.value := by
  rcases Nat.lt_succ_iff_lt_or_eq.1 hlt with hlt | rfl
  · exact h.shallow j k s t hfoot hle hlt hs ht
  · obtain rfl := Option.some.inj (hnext.symm.trans ht)
    rcases Nat.lt_or_eq_of_le hle with hlt | rfl
    · linarith [h.value_le hfoot hlt hs]
    · obtain rfl := Option.some.inj (hs.symm.trans ht)
      linarith

/-- A higher sample is the highest one. -/
theorem higher (h : Scanned samples foot best i highest) (hnext : samples[i]? = some next)
    (hhigher : highest.value < next.value) : Scanned samples foot i (i + 1) next where
  eq := hnext
  le := Nat.le_trans h.le (Nat.le_of_lt h.lt)
  lt := Nat.lt_succ_self i
  first := fun _ _ hfoot hlt hs => lt_of_le_of_lt (h.value_le hfoot hlt hs) hhigher
  rest := fun _ _ hlt hlt' _ => absurd hlt' (Nat.not_lt.2 hlt)
  shallow := h.shallow_succ hnext (by linarith)

/-- With a sample that is not higher, nor more than a point lower, the highest one stays. -/
theorem lower (h : Scanned samples foot best i highest) (hnext : samples[i]? = some next)
    (hnot : ¬ highest.value < next.value) (hclose : highest.value - 1 ≤ next.value) :
    Scanned samples foot best (i + 1) highest where
  eq := h.eq
  le := h.le
  lt := Nat.lt_succ_of_lt h.lt
  first := h.first
  rest := by
    intro k s hbest hlt hs
    rcases Nat.lt_succ_iff_lt_or_eq.1 hlt with hlt | rfl
    · exact h.rest k s hbest hlt hs
    · obtain rfl := Option.some.inj (hnext.symm.trans hs)
      exact not_lt.1 hnot
  shallow := h.shallow_succ hnext hclose

/-- Where the search ends, the highest sample is the peak: if there is a next sample, it is too late
or more than a point lower. -/
theorem peaked (h : Scanned samples foot best i highest)
    (hend : ∀ next, samples[i]? = some next →
      limit < next.time ∨ next.value < highest.value - 1) :
    Peaked samples limit foot best highest where
  eq := h.eq
  le := h.le
  first := h.first
  shallow := fun j k s t hfoot hle hlt => h.shallow j k s t hfoot hle (Nat.lt_of_le_of_lt hlt h.lt)
  after := by
    intro k s hbest hs hon
    rcases Nat.lt_or_ge k i with hlt | hge
    · exact h.rest k s hbest hlt hs
    · -- the search would have gone on over the next sample
      obtain ⟨hlength, -⟩ := List.getElem?_eq_some_iff.1 hs
      have hnext := List.getElem?_eq_getElem (Nat.lt_of_le_of_lt hge hlength)
      obtain ⟨htime, hvalue⟩ := hon i _ h.lt hge hnext
      rcases hend _ hnext with hlate | hsettled
      · exact absurd htime (Instant.not_le.2 hlate)
      · exact absurd hvalue (not_le.2 hsettled)

end Scanned

/-- The search over positions comes to a peak. -/
theorem peaked_of_peak (h : Scanned samples foot best i highest)
    (hlater : samples.drop i = later) (hpeak : Guarded.peak samples limit best i later = some top)
    (hhigh : samples[top]? = some high) : Peaked samples limit foot top high := by
  -- by induction on what is left; `Scanned` is kept
  induction later generalizing best i highest with
  | nil =>
      obtain rfl := Option.some.inj hpeak
      obtain rfl := Option.some.inj (h.eq.symm.trans hhigh)
      refine h.peaked fun next hnext => ?_
      have hlength := List.drop_eq_nil_iff.1 hlater
      obtain ⟨hlt, -⟩ := List.getElem?_eq_some_iff.1 hnext
      exact absurd hlt (Nat.not_lt.2 hlength)
  | cons s later ih =>
      obtain ⟨hs, hrest⟩ := Guarded.getElem?_of_drop hlater
      have hone : highest.value - (1.0 : Rat) = highest.value - 1 := by norm_num
      rw [Guarded.peak, h.eq, Option.bind_eq_bind, Option.bind_some] at hpeak
      split at hpeak
      · rename_i hlate
        obtain rfl := Option.some.inj hpeak
        obtain rfl := Option.some.inj (h.eq.symm.trans hhigh)
        refine h.peaked fun next hnext => Or.inl ?_
        rwa [Option.some.inj (hnext.symm.trans hs)]
      · split at hpeak
        · rename_i hhigher
          exact ih (h.higher hs hhigher) hrest hpeak
        · rename_i hnot
          split at hpeak
          · rename_i hsettled
            obtain rfl := Option.some.inj hpeak
            obtain rfl := Option.some.inj (h.eq.symm.trans hhigh)
            refine h.peaked fun next hnext => Or.inr ?_
            rw [Option.some.inj (hnext.symm.trans hs)]
            exact lt_of_lt_of_eq hsettled hone
          · rename_i hshallow
            have hclose : highest.value - 1 ≤ s.value := hone ▸ not_lt.1 hshallow
            exact ih (h.lower hs hnot hclose) hrest hpeak

/-! ## Windows -/

/-- A range goes from a trough to a peak, as the window from an instant on finds them: the samples
at both ends of the window, the trough and the peak are looked up by position, at `first`, `last`,
`foot` and `top`. -/
structure TroughToPeak (samples : List (Sample Rat)) (start : Instant) (r : Range)
    (first last foot top : Nat) (here low high : Sample Rat) : Prop where
  first_eq : Series.indexAtOrBefore start samples = some first
  here_eq : samples[first]? = some here
  last_eq : Series.indexAtOrBefore (start + windowLength) samples = some last
  last_lt : last < samples.length
  trough_eq : Guarded.trough samples (start + windowLength) first = some foot
  low_eq : samples[foot]? = some low
  peak_eq : Guarded.peak samples (start + windowLength + peakSearch) foot (foot + 1)
    (samples.drop (foot + 1)) = some top
  range_eq : r = ⟨low.time, high.time⟩
  /-- The trough is not above the level at the start of the window. -/
  low_le : low.value ≤ here.value
  /-- The sample before it is not lower. -/
  low_le_before : ∀ k s, k + 1 = foot → samples[k]? = some s → low.value ≤ s.value
  peaked : Peaked samples (start + windowLength + peakSearch) foot top high

/-- Where a window shows a refuel, that is the range from the trough to the peak. -/
theorem inWindow_eq_some {α : Type} [Level α] {stop : Instant} {leastIncrease : α}
    {shortest : Span} {c : Cursor α} {r : Range}
    (h : inWindow stop leastIncrease shortest c = some r) :
    r = ⟨(c.trough stop).here.time,
      (Cursor.peak (stop + peakSearch) (c.trough stop).here (c.trough stop).later).time⟩ := by
  rw [inWindow] at h
  split at h
  · exact absurd h (by simp)
  · split at h
    · exact absurd h (by simp)
    · simp only at h
      split at h
      · exact (Option.some.inj h).symm
      · exact absurd h (by simp)

/-- The cursor at the trough stands at the position to which the walks go. It is not above the
sample from which they began, and the sample before it is not lower. -/
theorem exists_trough (limit : Instant) (earlier later : List (Sample Rat)) (here : Sample Rat)
    {low : Cursor Rat} (hlow : Cursor.trough limit ⟨earlier, here, later⟩ = low) :
    ∃ foot, Guarded.trough (earlier.reverse ++ here :: later) limit earlier.length = some foot ∧
      (earlier.reverse ++ here :: later).drop foot = low.here :: low.later ∧
      low.here.value ≤ here.value ∧
      ∀ k s, k + 1 = foot → (earlier.reverse ++ here :: later)[k]? = some s →
        low.here.value ≤ s.value := by
  obtain ⟨hwalk, hlist⟩ := Guarded.trough_eq limit earlier later here
  have hle := Cursor.trough_le limit ⟨earlier, here, later⟩
  rw [hlow] at hwalk hlist hle
  rw [← hlist] at hwalk ⊢
  refine ⟨_, hwalk, Cursor.drop_toList low.earlier low.later low.here, hle, ?_⟩
  intro k s hk hs
  obtain ⟨rest, hrest⟩ := Cursor.exists_earlier_eq_cons hk hs
  rw [← hlow] at hrest ⊢
  exact Cursor.trough_le_before limit _ hrest

/-- A window that shows a refuel shows it from a trough to a peak. -/
theorem exists_troughToPeak {leastIncrease : Rat} {shortest : Span} {start : Instant} {r : Range}
    (h : shown leastIncrease shortest samples start = some r) :
    ∃ first last foot top here low high,
      TroughToPeak samples start r first last foot top here low high := by
  cases hfirst : Series.indexAtOrBefore start samples with
  | none =>
      rw [shown, cursorUpTo, Series.upTo_eq_nil_of_indexAtOrBefore hfirst] at h
      exact absurd h (by simp [cursorAt])
  | some first =>
      obtain ⟨earlier, here, later, hcursor, rfl, rfl, htimes⟩ := exists_cursorUpTo hfirst
      obtain ⟨hhere, -⟩ := Guarded.getElem?_of_drop (Cursor.drop_toList earlier later here)
      obtain ⟨last, hlast, hend⟩ := exists_lookup_at_end (t := start + windowLength) later
        fun s hs => Instant.le_trans (htimes s hs) (Int.le_add_of_nonneg_right (by decide))
      obtain ⟨foot, hfoot, hdrop, hle, hbefore⟩ :=
        exists_trough (start + windowLength) earlier later here rfl
      obtain ⟨hlow, hafter⟩ := Guarded.getElem?_of_drop hdrop
      obtain ⟨top, hpeak, hhigh⟩ :=
        Guarded.peak_eq (start + windowLength + peakSearch) hlow hafter
      rw [shown, hcursor, Option.bind_some] at h
      exact ⟨_, last, foot, top, here, _, _,
        { first_eq := hfirst
          here_eq := hhere
          last_eq := hlast
          last_lt := (List.getElem?_eq_some_iff.1 hend).1
          trough_eq := hfoot
          low_eq := hlow
          peak_eq := hafter ▸ hpeak
          range_eq := inWindow_eq_some h
          low_le := hle
          low_le_before := hbefore
          peaked := peaked_of_peak (Scanned.start hlow) hafter hpeak hhigh }⟩

/-- Every refuel that a window shows goes from a trough to a peak: the trough is not above the level
at the start of the window, and the sample before it is not lower; the peak is the first highest
sample from the trough on, the level does not fall by more than one point on the way, and no sample
after the peak is higher before the level has settled or half an hour after the window is over. All
positions that are looked up are in the list. The refuels that are found are those of the windows.
-/
theorem finds_trough_to_peak (asked : Range) (leastIncrease : Rat) (shortest : Span)
    (samples : List (Sample Rat)) :
    finds asked leastIncrease shortest samples =
        (windowStarts asked).filterMap (shown leastIncrease shortest samples) ∧
      ∀ start r, shown leastIncrease shortest samples start = some r →
        ∃ first last foot top here low high,
          TroughToPeak samples start r first last foot top here low high :=
  ⟨finds_eq_filterMap asked leastIncrease shortest samples, fun _ _ h => exists_troughToPeak h⟩

/-- A tank that is filled in two steps with a pause between them, and settles before it is filled
again. -/
def settlingLog : List (Sample Rat) :=
  [⟨.ofSeconds 0, 22⟩, ⟨.ofSeconds 60, 20⟩, ⟨.ofSeconds 120, 20.5⟩, ⟨.ofSeconds 180, 21⟩,
    ⟨.ofSeconds 240, 60⟩, ⟨.ofSeconds 300, 59.5⟩, ⟨.ofSeconds 360, 80⟩, ⟨.ofSeconds 420, 80⟩,
    ⟨.ofSeconds 480, 78⟩, ⟨.ofSeconds 540, 90⟩]

theorem finds_trough_to_peak_settlingLog :
    shown 30 (Span.seconds 60) settlingLog (.ofSeconds 180) =
        some ⟨.ofSeconds 60, .ofSeconds 360⟩ ∧
      ∃ first last foot top here low high,
        TroughToPeak settlingLog (.ofSeconds 180) ⟨.ofSeconds 60, .ofSeconds 360⟩
          first last foot top here low high := by
  have hshown : shown 30 (Span.seconds 60) settlingLog (.ofSeconds 180) =
      some ⟨.ofSeconds 60, .ofSeconds 360⟩ := by decide +kernel
  exact ⟨hshown, (finds_trough_to_peak ⟨.ofSeconds 0, .ofSeconds 600⟩ 30 (Span.seconds 60)
    settlingLog).2 _ _ hshown⟩

end Refuel

end Telematics
