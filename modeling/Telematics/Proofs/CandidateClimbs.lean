import Mathlib.Data.List.Forall2
import Telematics.Proofs.ClimbPositions
import Telematics.Proofs.NarrowedClimbs

/-!
# Candidates are qualifying climbs

A climb of the smoothed levels is a candidate when it is large enough, when its readings bear it
out, and when the range that it is narrowed to is long enough and the vehicle is parked in it
(`Recharge.IsCandidate`). Of a series whose levels are numbers, before and after smoothing, the
candidates are found, one for each such climb and in the order of the climbs, and none reaches into
the next one (`Recharge.candidates_of_climbs`).
-/

set_option autoImplicit false

namespace Telematics.Recharge

section Reads

variable {α : Type} [Level α] {charge odometer : List (Sample α)} {c : Nat × Nat}

/-- The smoothed levels of a series. -/
def smoothedLevels (charge : List (Sample α)) : List α :=
  Series.rollingMean smoothing (charge.map Sample.value)

theorem length_smoothedLevels (charge : List (Sample α)) :
    (smoothedLevels charge).length = charge.length :=
  (Series.length_rollingMean _ _).trans (List.length_map _)

/-- Positions of levels are positions of readings. -/
theorem exists_reads {i : Nat} (hi : i < (smoothedLevels charge).length) :
    ∃ level s, (smoothedLevels charge)[i]? = some level ∧ charge[i]? = some s :=
  ⟨_, _, List.getElem?_eq_getElem hi,
    List.getElem?_eq_getElem (Nat.lt_of_lt_of_eq hi (length_smoothedLevels charge))⟩

/-- What becomes of a climb whose levels and readings are known. -/
theorem candidate_eq_some_iff_of_reads {smoothed : List α} {smoothFoot smoothTop : α}
    {foot top : Sample α} {later : List (Sample α)} {leastIncrease : α} {minDuration : Span}
    {r : Range} (hsmoothFoot : smoothed[c.1]? = some smoothFoot)
    (hsmoothTop : smoothed[c.2]? = some smoothTop) (htop : charge[c.2]? = some top)
    (hbetween : between c.1 c.2 charge = foot :: later) :
    candidate charge odometer smoothed leastIncrease minDuration c = some r ↔
      (leastIncrease ≤ smoothTop - smoothFoot ∧ minDuration ≤ top.time - foot.time ∧
        foot.value < top.value) ∧
      narrowed foot later = r ∧ minDuration ≤ r.length ∧ parkedDuring odometer r = true := by
  have hqualifies : qualifies leastIncrease minDuration smoothFoot smoothTop foot top = true ↔
      leastIncrease ≤ smoothTop - smoothFoot ∧ minDuration ≤ top.time - foot.time ∧
        foot.value < top.value := by
    simp only [qualifies, Bool.and_eq_true, decide_eq_true_eq, and_assoc]
  rw [candidate, hsmoothFoot, hsmoothTop, htop, hbetween, ← hqualifies]
  simp only [Option.ite_none_right_eq_some, Option.some.injEq]
  constructor
  · rintro ⟨hlarge, ⟨hlong, hparked⟩, rfl⟩
    exact ⟨hlarge, rfl, hlong, hparked⟩
  · rintro ⟨hlarge, rfl, hlong, hparked⟩
    exact ⟨hlarge, ⟨hlong, hparked⟩, rfl⟩

end Reads

open FloatOrder

variable {charge odometer : List (Sample Float)} {leastIncrease : Float} {minDuration : Span}
  {c : Nat × Nat} {r : Range}

/-- A climb of the smoothed levels by at least the least increase, over at least the shortest
recharge, at whose top the reading is above the one at its foot. -/
structure LargeClimb (charge : List (Sample Float)) (leastIncrease : Float) (minDuration : Span)
    (c : Nat × Nat) : Prop where
  climb : IsClimb (smoothedLevels charge) c
  increase : ∃ smoothFoot smoothTop, (smoothedLevels charge)[c.1]? = some smoothFoot ∧
    (smoothedLevels charge)[c.2]? = some smoothTop ∧ leastIncrease ≤ smoothTop - smoothFoot
  readings : ∃ foot top, charge[c.1]? = some foot ∧ charge[c.2]? = some top ∧
    minDuration ≤ top.time - foot.time ∧ foot.value < top.value

/-- A large climb that is narrowed to a range which is long enough and in which the vehicle is
parked. -/
structure IsCandidate (charge odometer : List (Sample Float)) (leastIncrease : Float)
    (minDuration : Span) (c : Nat × Nat) (r : Range) : Prop where
  large : LargeClimb charge leastIncrease minDuration c
  narrows : NarrowsTo charge c r
  long : minDuration ≤ r.length
  parked : parkedDuring odometer r = true

/-- Every large climb is narrowed to one range. -/
theorem LargeClimb.existsUnique (h : LargeClimb charge leastIncrease minDuration c)
    (hnumbers : ∀ s ∈ charge, IsNumber s.value) : ∃! r, NarrowsTo charge c r := by
  obtain ⟨foot, top, hfoot, htop, -, hrise⟩ := h.readings
  obtain ⟨later, -, hnarrows⟩ := exists_narrowed hnumbers h.climb.lt hfoot htop hrise
  exact ⟨_, hnarrows, fun r hr => hr.unique hnarrows⟩

/-- What is made of a climb is the candidate that it is. -/
theorem candidate_eq_some_iff (hnumbers : ∀ s ∈ charge, IsNumber s.value)
    (hclimb : IsClimb (smoothedLevels charge) c) :
    candidate charge odometer (smoothedLevels charge) leastIncrease minDuration c = some r ↔
      IsCandidate charge odometer leastIncrease minDuration c r := by
  obtain ⟨smoothFoot, foot, hsmoothFoot, hfoot⟩ :=
    exists_reads (Nat.lt_trans hclimb.lt hclimb.lt_length)
  obtain ⟨smoothTop, top, hsmoothTop, htop⟩ := exists_reads hclimb.lt_length
  obtain ⟨later, hbetween⟩ : ∃ later, between c.1 c.2 charge = foot :: later :=
    ⟨_, Guarded.between_eq_cons (Nat.le_of_lt hclimb.lt) hfoot⟩
  rw [candidate_eq_some_iff_of_reads hsmoothFoot hsmoothTop htop hbetween]
  -- the scans start from the foot, and come to what narrows the climb
  have hnarrows : foot.value < top.value → NarrowsTo charge c (narrowed foot later) := by
    intro hrise
    obtain ⟨later', hlater, hnarrows⟩ := exists_narrowed hnumbers hclimb.lt hfoot htop hrise
    obtain ⟨-, rfl⟩ := List.cons.inj (hbetween.symm.trans hlater)
    exact hnarrows
  constructor
  · rintro ⟨⟨hincrease, htime, hrise⟩, rfl, hlong, hparked⟩
    exact ⟨⟨hclimb, ⟨smoothFoot, smoothTop, hsmoothFoot, hsmoothTop, hincrease⟩,
      ⟨foot, top, hfoot, htop, htime, hrise⟩⟩, hnarrows hrise, hlong, hparked⟩
  · rintro ⟨⟨-, ⟨x, y, hx, hy, hincrease⟩, s, t, hs, ht, htime, hrise⟩, hr, hlong, hparked⟩
    obtain rfl := Option.some.inj (hx.symm.trans hsmoothFoot)
    obtain rfl := Option.some.inj (hy.symm.trans hsmoothTop)
    obtain rfl := Option.some.inj (hs.symm.trans hfoot)
    obtain rfl := Option.some.inj (ht.symm.trans htop)
    exact ⟨⟨hincrease, htime, hrise⟩, (hnarrows hrise).unique hr, hlong, hparked⟩

/-- A candidate is over before the one of a later climb begins. -/
theorem IsCandidate.stop_le (hsorted : Series.Ascending charge) {d : Nat × Nat} {q : Range}
    (hr : IsCandidate charge odometer leastIncrease minDuration c r)
    (hq : IsCandidate charge odometer leastIncrease minDuration d q) (hlt : c.2 < d.1) :
    r.stop ≤ q.start := by
  obtain ⟨low, high, a, b, hnarrowed, rfl⟩ := hr.narrows
  obtain ⟨low', high', a', b', hnarrowed', rfl⟩ := hq.narrows
  obtain ⟨hhigh, rfl⟩ := List.getElem?_eq_some_iff.1 hnarrowed.high_eq
  obtain ⟨hlow, rfl⟩ := List.getElem?_eq_some_iff.1 hnarrowed'.low_eq
  have hbefore : high < low' :=
    Nat.lt_of_le_of_lt hnarrowed.le_top (Nat.lt_of_lt_of_le hlt hnarrowed'.foot_le)
  exact List.pairwise_iff_getElem.1 hsorted high low' hhigh hlow hbefore

/-! ## All candidates -/

/-- What a rule makes of the elements that it makes something of, one by one. -/
theorem forall₂_filterMap {α β : Type} {f : α → Option β} {R : α → β → Prop} {xs : List α}
    (h : ∀ x ∈ xs, ∀ y, f x = some y → R x y) :
    List.Forall₂ R (xs.filter fun x => (f x).isSome) (xs.filterMap f) := by
  induction xs with
  | nil => exact .nil
  | cons x xs ih =>
      obtain ⟨hfirst, hrest⟩ := List.forall_mem_cons.1 h
      cases hx : f x with
      | none =>
          rw [List.filter_cons_of_neg (by simp [hx]), List.filterMap_cons_none hx]
          exact ih hrest
      | some y =>
          rw [List.filter_cons_of_pos (by simp [hx]), List.filterMap_cons_some hx]
          exact .cons (hfirst y hx) (ih hrest)

/-- Ranges are the candidates of climbs. -/
structure OfClimbs (charge odometer : List (Sample Float)) (leastIncrease : Float)
    (minDuration : Span) (climbs : List (Nat × Nat)) (found : List Range) : Prop where
  /-- The climbs are those that are candidates. -/
  mem_iff : ∀ c, c ∈ climbs ↔ ∃ r, IsCandidate charge odometer leastIncrease minDuration c r
  /-- They come from the left to the right. -/
  ordered : climbs.Pairwise fun c d => c.2 < d.1
  /-- There is one range for each of them, in the same order. -/
  ranges : List.Forall₂ (IsCandidate charge odometer leastIncrease minDuration) climbs found
  /-- The ranges do not reach into each other. -/
  apart : found.Pairwise fun r q => r.stop ≤ q.start

/-- The rule for one climb, applied to all of them, gives the candidates of some. -/
theorem exists_ofClimbs (hsorted : Series.Ascending charge)
    (hnumbers : ∀ s ∈ charge, IsNumber s.value) {climbs : List (Nat × Nat)}
    (hclimbs : ∀ c, c ∈ climbs ↔ IsClimb (smoothedLevels charge) c)
    (hordered : climbs.Pairwise fun c d => c.2 < d.1) :
    ∃ kept, OfClimbs charge odometer leastIncrease minDuration kept (climbs.filterMap
      (candidate charge odometer (smoothedLevels charge) leastIncrease minDuration)) := by
  have hcandidate : ∀ c ∈ climbs, ∀ r,
      candidate charge odometer (smoothedLevels charge) leastIncrease minDuration c = some r ↔
        IsCandidate charge odometer leastIncrease minDuration c r := fun c hc r =>
    candidate_eq_some_iff hnumbers ((hclimbs c).1 hc)
  refine ⟨_, ?_, hordered.filter _, forall₂_filterMap fun c hc r => (hcandidate c hc r).1, ?_⟩
  · intro c
    rw [List.mem_filter]
    constructor
    · rintro ⟨hc, hsome⟩
      obtain ⟨r, hr⟩ := Option.isSome_iff_exists.1 hsome
      exact ⟨r, (hcandidate c hc r).1 hr⟩
    · rintro ⟨r, hr⟩
      have hc := (hclimbs c).2 hr.large.climb
      exact ⟨hc, Option.isSome_iff_exists.2 ⟨r, (hcandidate c hc r).2 hr⟩⟩
  · -- climbs are apart, and a range stays inside its climb
    rw [List.pairwise_filterMap]
    refine hordered.imp_of_mem ?_
    intro c d hc hd hlt r hr q hq
    exact ((hcandidate c hc r).1 hr).stop_le hsorted ((hcandidate d hd q).1 hq) hlt

/-- The candidates of a series of numbers are those of its climbs; each climb that is large is
narrowed to one range, which is a rise between its foot and its top. -/
theorem candidates_of_climbs (hsorted : Series.Ascending charge)
    (hnumbers : ∀ s ∈ charge, IsNumber s.value)
    (hsmoothed : ∀ level ∈ smoothedLevels charge, IsNumber level)
    (odometer : List (Sample Float)) (leastIncrease : Float) (minDuration : Span) :
    (∃ climbs found, candidates charge odometer leastIncrease minDuration = some found ∧
      OfClimbs charge odometer leastIncrease minDuration climbs found) ∧
    ∀ c, LargeClimb charge leastIncrease minDuration c → ∃! r, NarrowsTo charge c r := by
  obtain ⟨found, hfound⟩ := Option.isSome_iff_exists.1 (isSome_candidates
    (fun a ha b hb => le_or_lt (hsmoothed a ha) (hsmoothed b hb)) odometer leastIncrease
    minDuration)
  obtain ⟨climbs, hclimbs, rfl⟩ := Option.map_eq_some_iff.1 hfound
  have hasymm : ∀ a b : Float, b ≤ a → ¬ a < b := fun a b hle => not_lt_of_le hle
  obtain ⟨kept, hkept⟩ := exists_ofClimbs hsorted hnumbers
    (fun c => mem_rises_iff hasymm hclimbs) (pairwise_rises hasymm hclimbs)
  exact ⟨⟨kept, _, hfound, hkept⟩, fun c h => h.existsUnique hnumbers⟩

/-- A charge by a point each minute, with one reading in the middle that is a point too high. -/
def bumpLog : List (Sample Float) :=
  (List.range 14).map fun (i : Nat) =>
    ⟨.ofSeconds (60 * i), if i = 6 then 8.0 else Float.ofNat i + 1.0⟩

theorem candidates_bumpLog :
    (Series.Ascending bumpLog ∧ (∀ s ∈ bumpLog, IsNumber s.value) ∧
      ∀ level ∈ smoothedLevels bumpLog, IsNumber level) ∧
    (∃ climbs found, candidates bumpLog [] 1.0 (Span.seconds 60) = some found ∧
      OfClimbs bumpLog [] 1.0 (Span.seconds 60) climbs found) ∧
    ∀ c, LargeClimb bumpLog 1.0 (Span.seconds 60) c → ∃! r, NarrowsTo bumpLog c r := by
  have hsorted : Series.Ascending bumpLog := by decide +kernel
  have hnumbers : ∀ s ∈ bumpLog, IsNumber s.value := by decide +kernel
  have hsmoothed : ∀ level ∈ smoothedLevels bumpLog, IsNumber level := by decide +kernel
  exact ⟨⟨hsorted, hnumbers, hsmoothed⟩, candidates_of_climbs hsorted hnumbers hsmoothed [] 1.0
    (Span.seconds 60)⟩

example : candidates bumpLog [] 1.0 (Span.seconds 60) = some [⟨.ofSeconds 0, .ofSeconds 780⟩] := by
  decide +kernel

end Telematics.Recharge
