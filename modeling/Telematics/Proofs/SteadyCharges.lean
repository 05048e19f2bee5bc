import Telematics.Proofs.CandidateClimbs
import Telematics.Proofs.CentredMeans

/-!
# Steady charges

Smoothing keeps levels rising where there are enough of them (`Recharge.pairwise_lt_smoothing`), so
a charge that never stops is one climb from the first level to the last. Its readings rise as well,
so that nothing is taken away from it at either end: it is one candidate, from the first sample to
the last (`Recharge.SteadyCharge.candidates_eq`). Levels that do not rise are smoothed to levels
that do not, and have no candidate (`Recharge.candidates_of_falling`). Levels are exact numbers
here.
-/

set_option autoImplicit false

namespace Telematics

/-! ## Climbs of rising and of falling levels -/

section Climbs

variable {here : Rat} {rest values : List Rat}

theorem Rise.walk_of_rising (i t : Nat) (h : (here :: rest).Pairwise fun a b => a < b) :
    Rise.walk i here (some t) rest = some [(t, i + rest.length)] := by
  -- every step goes up, so the climb that began at `t` ends with the list
  induction rest generalizing i here with
  | nil => rfl
  | cons next rest ih =>
      obtain ⟨hhere, hrest⟩ := List.pairwise_cons.1 h
      have hlt := hhere next List.mem_cons_self
      rw [Rise.walk, if_neg (not_le.2 hlt), if_pos hlt, Option.getD_some, ih (i + 1) hrest,
        List.length_cons, Nat.add_right_comm, Nat.add_assoc]

theorem Rise.walk_of_falling (i : Nat) (h : (here :: rest).Pairwise fun a b => b ≤ a) :
    Rise.walk i here none rest = some [] := by
  induction rest generalizing i here with
  | nil => rfl
  | cons next rest ih =>
      obtain ⟨hhere, hrest⟩ := List.pairwise_cons.1 h
      rw [Rise.walk, if_pos (hhere next List.mem_cons_self), ih (i + 1) hrest]
      rfl

/-- Levels that rise, two at least, are one climb. -/
theorem rises_of_rising (h : values.Pairwise fun a b => a < b) (hlength : 2 ≤ values.length) :
    rises values = some [(0, values.length - 1)] := by
  match values, hlength with
  | here :: next :: rest, _ =>
      obtain ⟨hhere, hrest⟩ := List.pairwise_cons.1 h
      have hlt := hhere next List.mem_cons_self
      rw [rises, Rise.walk, if_neg (not_le.2 hlt), if_pos hlt, Rise.walk_of_rising _ _ hrest]
      simp [Nat.add_comm]

/-- Levels that do not rise have no climb. -/
theorem rises_of_falling (h : values.Pairwise fun a b => b ≤ a) : rises values = some [] := by
  cases values with
  | nil => rfl
  | cons here rest => exact Rise.walk_of_falling 0 h

end Climbs

namespace Recharge

/-! ## Readings that rise -/

section Readings

variable {first low high : Sample Rat} {fromLow later rest : List (Sample Rat)}

theorem lastLowest_of_rising (h : ∀ s ∈ rest, low.value < s.value) :
    lastLowest low fromLow rest = (low, fromLow) := by
  induction rest with
  | nil => rfl
  | cons s rest ih =>
      obtain ⟨hs, hrest⟩ := List.forall_mem_cons.1 h
      rw [lastLowest, if_neg (not_le.2 hs), ih hrest]

theorem firstHighest_of_rising (h : (high :: rest).Pairwise fun s t => s.value < t.value) :
    some (firstHighest high rest) = (high :: rest).getLast? := by
  induction rest generalizing high with
  | nil => rfl
  | cons s rest ih =>
      obtain ⟨hhigh, hrest⟩ := List.pairwise_cons.1 h
      rw [firstHighest, if_pos (hhigh s List.mem_cons_self), ih hrest, List.getLast?_cons_cons]

/-- Readings that rise are not narrowed. -/
theorem narrowed_of_rising {last : Sample Rat}
    (h : (first :: later).Pairwise fun s t => s.value < t.value)
    (hlast : (first :: later).getLast? = some last) :
    narrowed first later = ⟨first.time, last.time⟩ := by
  have hhighest := (firstHighest_of_rising h).trans hlast
  rw [narrowed, lastLowest_of_rising (List.pairwise_cons.1 h).1]
  show (⟨first.time, (firstHighest first later).time⟩ : Range) = _
  rw [Option.some.inj hhighest]

end Readings

/-! ## Smoothed levels -/

variable {charge odometer : List (Sample Rat)} {leastIncrease : Rat} {minDuration : Span}
  {first last : Sample Rat}

/-- The first and the last smoothed level are the means of the first and of the last six levels. -/
theorem ends_smoothedLevels (hlength : leastSamples ≤ charge.length) :
    (smoothedLevels charge)[0]? = some (Series.mean ((charge.map Sample.value).take 6)) ∧
      (smoothedLevels charge)[charge.length - 1]? =
        some (Series.mean ((charge.map Sample.value).drop (charge.length - 6))) := by
  have hmap : (charge.map Sample.value).length = charge.length := List.length_map _
  have hpos : 0 < charge.length := Nat.lt_of_lt_of_le (by decide) hlength
  constructor
  · exact Series.getElem?_rollingMean (by decide) (hmap ▸ hpos)
  · have hlast : (smoothedLevels charge)[charge.length - 1]? =
        some (Series.mean (Series.around (smoothing / 2) (charge.length - 1)
          (charge.map Sample.value))) :=
      Series.getElem?_rollingMean (by decide) (by omega)
    rw [Series.around, List.take_of_length_le (by simp only [smoothing]; omega),
      show charge.length - 1 - smoothing / 2 = charge.length - 6 by
        simp only [smoothing]; omega] at hlast
    exact hlast

/-- Levels that rise are smoothed to levels that rise, if there are enough of them to be trusted. -/
theorem pairwise_lt_smoothing {values : List Rat} (hlength : leastSamples ≤ values.length)
    (hrising : values.Pairwise fun a b => a < b) :
    (Series.rollingMean smoothing values).Pairwise fun a b => a < b := by
  apply Series.pairwise_lt_rollingMean (by decide) _ hrising
  simp only [leastSamples] at hlength
  simp only [smoothing]
  omega

/-- A charge that rises from sample to sample, by enough and for long enough, while the vehicle is
parked. -/
structure SteadyCharge (charge odometer : List (Sample Rat)) (leastIncrease : Rat)
    (minDuration : Span) (first last : Sample Rat) : Prop where
  /-- There are enough samples to trust it. -/
  enough : leastSamples ≤ charge.length
  /-- Each reading is above the ones before it. -/
  rising : charge.Pairwise fun s t => s.value < t.value
  head_eq : charge.head? = some first
  getLast_eq : charge.getLast? = some last
  /-- The mean of the last six readings is far enough above that of the first six. -/
  increase : leastIncrease ≤ Series.mean ((charge.map Sample.value).drop (charge.length - 6)) -
    Series.mean ((charge.map Sample.value).take 6)
  long : minDuration ≤ last.time - first.time
  parked : parkedDuring odometer ⟨first.time, last.time⟩ = true

/-- A steady charge is one candidate, from its first sample to its last. -/
theorem SteadyCharge.candidates_eq
    (h : SteadyCharge charge odometer leastIncrease minDuration first last) :
    candidates charge odometer leastIncrease minDuration =
      some [⟨first.time, last.time⟩] := by
  have henough : 13 ≤ charge.length := h.enough
  have hmap : (charge.map Sample.value).length = charge.length := List.length_map _
  obtain ⟨hsmoothFoot, hsmoothTop⟩ := ends_smoothedLevels h.enough
  obtain ⟨later, hcharge⟩ := List.head?_eq_some_iff.1 h.head_eq
  have hrising := h.rising
  have hlast := h.getLast_eq
  rw [hcharge] at hrising hlast
  -- the smoothed levels are one climb
  have hclimbs : rises (smoothedLevels charge) = some [(0, charge.length - 1)] := by
    rw [← length_smoothedLevels charge]
    apply rises_of_rising (pairwise_lt_smoothing (hmap ▸ h.enough) (List.pairwise_map.2 h.rising))
    exact (length_smoothedLevels charge).symm ▸ Nat.le_trans (by decide) henough
  -- which is as long as the charge
  have hbetween : between 0 (charge.length - 1) charge = first :: later := by
    rw [between, List.drop_zero, List.take_of_length_le (by omega), hcharge]
  have htop : charge[charge.length - 1]? = some last := by
    rw [← List.getLast?_eq_getElem?, h.getLast_eq]
  have hraw : first.value < last.value := by
    -- a single sample would not be enough
    cases later with
    | nil =>
        rw [hcharge] at henough
        exact absurd henough (by simp)
    | cons s later =>
        rw [List.getLast?_cons_cons] at hlast
        exact (List.pairwise_cons.1 hrising).1 last (List.mem_of_getLast? hlast)
  have hcandidate : candidate charge odometer (smoothedLevels charge) leastIncrease minDuration
      (0, charge.length - 1) = some ⟨first.time, last.time⟩ :=
    (candidate_eq_some_iff_of_reads hsmoothFoot hsmoothTop htop hbetween).2
      ⟨⟨h.increase, h.long, hraw⟩, narrowed_of_rising hrising hlast, h.long, h.parked⟩
  show (rises (smoothedLevels charge)).map _ = _
  rw [hclimbs, Option.map_some]
  exact congrArg some (List.filterMap_cons_some hcandidate)

/-- Levels that do not rise have no candidate. -/
theorem candidates_of_falling (h : charge.Pairwise fun s t => t.value ≤ s.value)
    (odometer : List (Sample Rat)) (leastIncrease : Rat) (minDuration : Span) :
    candidates charge odometer leastIncrease minDuration = some [] := by
  have hvalues : (charge.map Sample.value).Pairwise fun a b => b ≤ a := List.pairwise_map.2 h
  rw [candidates]
  show (rises _).map _ = _
  rw [rises_of_falling (Series.pairwise_ge_rollingMean (by decide) hvalues)]
  rfl

/-- Smoothing keeps enough levels rising; so a steady charge is reported whole, and levels that do
not rise are not reported. -/
theorem candidates_of_steady :
    (∀ values : List Rat, leastSamples ≤ values.length →
      (values.Pairwise fun a b => a < b) →
      (Series.rollingMean smoothing values).Pairwise fun a b => a < b) ∧
    ∀ (charge odometer : List (Sample Rat)) (leastIncrease : Rat) (minDuration : Span),
      (∀ first last, SteadyCharge charge odometer leastIncrease minDuration first last →
        candidates charge odometer leastIncrease minDuration =
          some [⟨first.time, last.time⟩]) ∧
      ((charge.Pairwise fun s t => t.value ≤ s.value) →
        candidates charge odometer leastIncrease minDuration = some []) :=
  ⟨fun _ hlength hrising => pairwise_lt_smoothing hlength hrising,
    fun _ odometer leastIncrease minDuration => ⟨fun _ _ h => h.candidates_eq,
      fun h => candidates_of_falling h odometer leastIncrease minDuration⟩⟩

/-- Thirteen minutes in which the level rises by a point each. -/
def slowLog : List (Sample Rat) :=
  (List.range 13).map fun (i : Nat) => ⟨.ofSeconds (60 * i), i⟩

theorem steadyCharge_slowLog :
    SteadyCharge slowLog [] 1 (Span.seconds 60) ⟨.ofSeconds 0, 0⟩ ⟨.ofSeconds 720, 12⟩ where
  enough := by decide
  rising := by decide +kernel
  head_eq := rfl
  getLast_eq := by rfl
  increase := by decide +kernel
  long := by decide
  parked := rfl

theorem candidates_slowLog :
    SteadyCharge slowLog [] 1 (Span.seconds 60) ⟨.ofSeconds 0, 0⟩ ⟨.ofSeconds 720, 12⟩ ∧
      candidates slowLog [] 1 (Span.seconds 60) = some [⟨.ofSeconds 0, .ofSeconds 720⟩] ∧
      candidates slowLog.reverse [] 1 (Span.seconds 60) = some [] :=
  ⟨steadyCharge_slowLog,
    (candidates_of_steady.2 slowLog [] 1 (Span.seconds 60)).1 _ _ steadyCharge_slowLog,
    (candidates_of_steady.2 slowLog.reverse [] 1 (Span.seconds 60)).2 (by decide +kernel)⟩

end Recharge

end Telematics
