import Telematics.Proofs.ClimbPositions
import Telematics.Proofs.DetectedSegments
import Telematics.Proofs.GuardedClimbs
import Telematics.Proofs.GuardedSegments
import Telematics.Proofs.ParkedRecharge

/-!
# Guarded recharges

Recharges in guarded steps. A climb of the smoothed levels is narrowed by two loops over positions
between its foot and its top (`narrow_eq`), the odometer is looked up by position
(`firstLast_eq`, `sameOdometer_eq`), and ranges are joined by a guarded test (`mergeWith_eq`). All
positions are inside the lists, so the guarded steps come to what they come to without guards, and
fail exactly where two smoothed levels cannot be compared (`recharge_eq`).
-/

set_option autoImplicit false

namespace Telematics.Guarded

variable {α : Type}

/-! ## Pieces of a series -/

/-- The first and the last value between two instants, both included. -/
def firstLast (start stop : Instant) (samples : List (Sample α)) : Option (Option (α × α)) :=
  let low := (samples.takeWhile fun s => decide (s.time < start)).length
  let high := (Series.upTo stop samples).length
  if high ≤ low then return none
  else do
    let first ← samples[low]?
    let i ← less high 1
    let last ← samples[i]?
    return some (first.value, last.value)

theorem firstLast_eq {start stop : Instant} (hle : start ≤ stop) (samples : List (Sample α)) :
    firstLast start stop samples = some (Series.firstLast start stop samples) := by
  have hsplit : (samples.takeWhile fun s => decide (s.time < start)) ++
      (samples.dropWhile fun s => decide (s.time < start)) = samples :=
    List.takeWhile_append_dropWhile
  have hupTo := Series.upTo_eq_append_within hle samples
  have hlength := congrArg List.length hupTo
  rw [List.length_append] at hlength
  have hprefix : Series.within start stop samples <+:
      samples.dropWhile fun s => decide (s.time < start) := List.takeWhile_prefix _
  rw [firstLast, Series.firstLast]
  cases hwithin : Series.within start stop samples with
  | nil =>
      rw [hwithin, List.length_nil] at hlength
      exact if_pos (by omega)
  | cons first rest =>
      rw [hwithin] at hlength hprefix
      rw [List.length_cons] at hlength
      obtain ⟨others, hothers⟩ := hprefix
      have hlow : samples[(samples.takeWhile fun s => decide (s.time < start)).length]? =
          some first := by
        rw [← congrArg (fun xs => xs[_]?) hsplit, List.getElem?_append_right (Nat.le_refl _),
          Nat.sub_self, ← hothers]
        rfl
      have hindex : Series.indexAtOrBefore stop samples =
          some ((Series.upTo stop samples).length - 1) :=
        Series.indexAtOrBefore_eq_some_iff.2 (by omega)
      have hlast : samples[(Series.upTo stop samples).length - 1]? =
          some ((first :: rest).getLast (List.cons_ne_nil _ _)) := by
        rw [Series.getElem?_of_indexAtOrBefore hindex, hupTo, hwithin, List.getLast?_append_cons,
          List.getLast?_eq_some_getLast]
      simp only [show ¬ (Series.upTo stop samples).length ≤
          (samples.takeWhile fun s => decide (s.time < start)).length by omega, if_false, hlow,
        less_eq (show 1 ≤ (Series.upTo stop samples).length by omega), hlast,
        Option.bind_eq_bind, Option.bind_some, List.head?_cons,
        List.getLast?_eq_some_getLast (List.cons_ne_nil first rest)]
      rfl

/-- The samples between two positions are the one at the first position and those after it. -/
theorem between_eq_cons {samples : List (Sample α)} {foot top : Nat} (hle : foot ≤ top)
    {s : Sample α} (hs : samples[foot]? = some s) :
    Recharge.between foot top samples =
      s :: (samples.drop (foot + 1)).take (top + 1 - (foot + 1)) := by
  obtain ⟨hfoot, rfl⟩ := List.getElem?_eq_some_iff.1 hs
  have hlength : top + 1 - foot = top + 1 - (foot + 1) + 1 := by omega
  rw [Recharge.between, List.drop_eq_getElem_cons hfoot, hlength, List.take_succ_cons]

variable [Level α]

/-! ## The steps -/

/-- The position of the better of two samples; `best` is the position of the best so far. -/
def better (beats : α → α → Bool) (samples : List (Sample α)) (best i : Nat) : Option Nat := do
  let s ← samples[i]?
  let leader ← samples[best]?
  return if beats s.value leader.value then i else best

/-- The position of the best sample from one position to another one, both included. -/
def bestFrom (beats : α → α → Bool) (samples : List (Sample α)) (first last : Nat) : Option Nat :=
  (List.range' first (last + 1 - first)).foldlM (better beats samples) first

/-- The positions of the last lowest sample between two positions and of the first highest one after
it. -/
def narrow (samples : List (Sample α)) (foot top : Nat) : Option (Nat × Nat) := do
  let low ← bestFrom (fun value lowest => decide (value ≤ lowest)) samples foot top
  let high ← bestFrom (fun value highest => decide (highest < value)) samples low top
  return (low, high)

/-- The readings of the odometer in a range differ by no more than noise, if there are any. -/
def parkedDuring (odometer : List (Sample α)) (r : Range) : Option Bool := do
  let ends ← firstLast r.start r.stop odometer
  return match ends with
    | some (first, last) => decide (last - first ≤ Recharge.odometerNoise)
    | none => true

/-- The odometer shows the same before and after a gap. -/
def sameOdometer (odometer : List (Sample α)) (a b : Range) : Option Bool :=
  match Series.indexAtOrBefore a.stop odometer, Series.indexAtOrBefore b.start odometer with
  | some i, some j => do
    let before ← odometer[i]?
    let after ← odometer[j]?
    return Level.same before.value after.value
  | _, _ => return false

/-- The candidate that a climb is. -/
def candidate (charge odometer : List (Sample α)) (smoothed : List α) (leastIncrease : α)
    (shortest : Span) (climb : Nat × Nat) : Option (Option Range) := do
  let smoothTop ← smoothed[climb.2]?
  let smoothFoot ← smoothed[climb.1]?
  let top ← charge[climb.2]?
  let foot ← charge[climb.1]?
  if Recharge.qualifies leastIncrease shortest smoothFoot smoothTop foot top then
    let (low, high) ← narrow charge climb.1 climb.2
    let first ← charge[low]?
    let last ← charge[high]?
    let found : Range := ⟨first.time, last.time⟩
    if shortest ≤ found.length then
      let parked ← parkedDuring odometer found
      return if parked then some found else none
    else return none
  else return none

/-- Joins sorted ranges from the left; `r` is the range that is still growing. -/
def coalesce (gap : Span) (passes : Range → Range → Option Bool) (r : Range) :
    List Range → Option (List Range)
  | [] => some [r]
  | next :: rest => do
    let joined ← if r.gapTo next ≤ 0 then some true
      else if r.gapTo next ≤ gap then passes r next else some false
    if joined then coalesce gap passes (r.extend next) rest
    else
      let others ← coalesce gap passes next rest
      return r :: others

/-- Ranges in order, joined where they touch or overlap and across gaps that are at most `gap` and
that the test lets pass. -/
def mergeWith (gap : Span) (passes : Range → Range → Option Bool) (ranges : List Range) :
    Option (List Range) :=
  match ranges.mergeSort Range.notAfter with
  | [] => some []
  | r :: rest => coalesce gap passes r rest

/-- The candidates in a series of the state of charge. -/
def candidates (charge odometer : List (Sample Float)) (leastIncrease : Float) (shortest : Span) :
    Option (List Range) := do
  let smoothed ← rollingMean Recharge.smoothing (charge.map Sample.value)
  let climbs ← risingFrom smoothed 0
  collect (candidate charge odometer smoothed leastIncrease shortest) climbs

/-- Recharges from the state of charge. -/
def recharge (log : Log) (r : Request) : Option (List Segment) := do
  let lookback ← seconds (3600 * 2)
  let first ← earlier r.asked.start lookback
  let charge := log.levels r.token Signal.stateOfCharge ⟨first, r.asked.stop⟩
  if charge.length < Recharge.leastSamples then return []
  else
    let odometer := log.levels r.token Signal.odometer ⟨first, r.asked.stop⟩
    let shortest ← minSegment r.tuning Recharge.defaultMinSegment
    let found ←
      candidates charge odometer (r.tuning.minIncrease Recharge.defaultIncrease) shortest
    let gap ← seconds (3600 * 2)
    let merged ← mergeWith gap (sameOdometer odometer) found
    clip r.asked shortest false merged

/-! ## Lookups -/

theorem sameOdometer_eq (odometer : List (Sample α)) (a b : Range) :
    sameOdometer odometer a b = some (Recharge.sameOdometer odometer a b) := by
  rw [sameOdometer, Recharge.sameOdometer]
  rcases Series.lookup_cases a.stop odometer with
    ⟨hbefore, hbefore'⟩ | ⟨i, s, hbefore, hs, hbefore'⟩
  · rw [hbefore, hbefore']
    rfl
  · rcases Series.lookup_cases b.start odometer with ⟨hafter, hafter'⟩ | ⟨j, t, hafter, ht, hafter'⟩
    · rw [hbefore, hbefore', hafter, hafter']
      rfl
    · rw [hbefore, hbefore', hafter, hafter']
      simp only [hs, ht, Option.bind_eq_bind, Option.bind_some]
      rfl

theorem mergeWith_eq (gap : Span) {passes : Range → Range → Option Bool}
    {plain : Range → Range → Bool} (h : ∀ a b, passes a b = some (plain a b))
    (ranges : List Range) :
    mergeWith gap passes ranges = some (Range.mergeWith gap plain ranges) := by
  have hcoalesce : ∀ (rest : List Range) (r : Range),
      coalesce gap passes r rest = some (Range.coalesce gap plain r rest) := by
    intro rest
    induction rest with
    | nil => exact fun r => rfl
    | cons next rest ih =>
        intro r
        rw [coalesce, Range.coalesce, Range.joins, h]
        by_cases htouch : r.gapTo next ≤ 0
        · simp [htouch, ih]
        · by_cases hgap : r.gapTo next ≤ gap
          · cases plain r next <;> simp [htouch, hgap, ih]
          · simp [htouch, hgap, ih]
  rw [mergeWith, Range.mergeWith]
  cases ranges.mergeSort Range.notAfter with
  | nil => rfl
  | cons r rest => exact hcoalesce rest r

/-! ## Narrowed climbs -/

/-- The loop for the last lowest sample, from position `i` on over `n` samples; `low` is the
position of the lowest so far. -/
theorem foldlM_lowest {samples : List (Sample α)} {n i low : Nat} {s : Sample α}
    (hs : samples[low]? = some s) (hin : i + n ≤ samples.length) (hlow : low < i + n) :
    ∃ j t, (List.range' i n).foldlM
          (better (fun value lowest => decide (value ≤ lowest)) samples) low = some j ∧
      j < i + n ∧ samples[j]? = some t ∧
      Recharge.lastLowest s ((samples.drop (low + 1)).take (i + n - (low + 1)))
        ((samples.drop i).take n) = (t, (samples.drop (j + 1)).take (i + n - (j + 1))) := by
  -- the recursion carries the samples after the lowest so far, the loop only its position
  induction n generalizing i low s with
  | zero => exact ⟨low, s, rfl, hlow, hs, rfl⟩
  | succ n ih =>
      have hi : i < samples.length := by omega
      have hx := List.getElem?_eq_getElem hi
      have hshift : i + (n + 1) = i + 1 + n := by omega
      rw [List.range'_succ, List.foldlM_cons, better, hx, hs, List.drop_eq_getElem_cons hi,
        List.take_succ_cons, Recharge.lastLowest, hshift]
      simp only [Option.bind_eq_bind, Option.bind_some, Option.pure_def, decide_eq_true_eq]
      split
      · have hnext := ih hx (show i + 1 + n ≤ samples.length by omega) (by omega)
        rw [Nat.add_sub_cancel_left] at hnext
        exact hnext
      · exact ih hs (by omega) (by omega)

/-- The loop for the first highest sample, from position `i` on over `n` samples. -/
theorem foldlM_highest {samples : List (Sample α)} {n i high : Nat} {s : Sample α}
    (hs : samples[high]? = some s) (hin : i + n ≤ samples.length) :
    ∃ j, (List.range' i n).foldlM
          (better (fun value highest => decide (highest < value)) samples) high = some j ∧
      samples[j]? = some (Recharge.firstHighest s ((samples.drop i).take n)) := by
  induction n generalizing i high s with
  | zero => exact ⟨high, rfl, hs⟩
  | succ n ih =>
      have hi : i < samples.length := by omega
      have hx := List.getElem?_eq_getElem hi
      rw [List.range'_succ, List.foldlM_cons, better, hx, hs, List.drop_eq_getElem_cons hi,
        List.take_succ_cons, Recharge.firstHighest]
      simp only [Option.bind_eq_bind, Option.bind_some, Option.pure_def, decide_eq_true_eq]
      split
      · exact ih hx (by omega)
      · exact ih hs (by omega)

/-- The two loops find the range from the last lowest sample to the first highest one after it. -/
theorem narrow_eq {samples : List (Sample α)} {foot top : Nat} (hle : foot ≤ top)
    (htop : top < samples.length) {s : Sample α} {later : List (Sample α)}
    (h : Recharge.between foot top samples = s :: later) :
    ∃ low high a b, narrow samples foot top = some (low, high) ∧ samples[low]? = some a ∧
      samples[high]? = some b ∧ Recharge.narrowed s later = ⟨a.time, b.time⟩ := by
  have hfoot : foot < samples.length := by omega
  have hs := List.getElem?_eq_getElem hfoot
  have hbetween := between_eq_cons hle hs
  rw [h] at hbetween
  obtain ⟨rfl, hlater⟩ := List.cons.inj hbetween
  obtain ⟨low, a, hlow, hlt, ha, hlowest⟩ := foldlM_lowest hs
    (show foot + (top + 1 - foot) ≤ samples.length by omega) (by omega)
  obtain ⟨high, hhigh, hb⟩ := foldlM_highest ha
    (show low + (top + 1 - low) ≤ samples.length by omega)
  have hstop : foot + (top + 1 - foot) = top + 1 := by omega
  rw [hstop] at hlowest hlt
  -- the loops begin with the sample that they start from, which changes nothing
  have hlowest' : Recharge.lastLowest samples[foot] later later =
      (a, (samples.drop (low + 1)).take (top + 1 - (low + 1))) := by
    rw [← hlowest, ← hlater]
    show _ = Recharge.lastLowest _ _ (Recharge.between foot top samples)
    rw [h, Recharge.lastLowest, ite_self]
  have hhighest : Recharge.firstHighest a ((samples.drop low).take (top + 1 - low)) =
      Recharge.firstHighest a ((samples.drop (low + 1)).take (top + 1 - (low + 1))) := by
    show Recharge.firstHighest a (Recharge.between low top samples) = _
    rw [between_eq_cons (by omega) ha, Recharge.firstHighest, ite_self]
  refine ⟨low, high, a, _, ?_, ha, hb, ?_⟩
  · rw [narrow, bestFrom, hlow, Option.bind_eq_bind, Option.bind_some, bestFrom, hhigh]
    rfl
  · rw [Recharge.narrowed, hlowest', hhighest]

/-! ## Candidates -/

variable {charge odometer : List (Sample α)} {climb : Nat × Nat}

theorem parkedDuring_eq {r : Range} (hle : r.start ≤ r.stop) (odometer : List (Sample α)) :
    parkedDuring odometer r = some (Recharge.parkedDuring odometer r) := by
  rw [parkedDuring, firstLast_eq hle, Recharge.parkedDuring]
  cases Series.firstLast r.start r.stop odometer <;> rfl

/-- A climb between positions of samples is judged, and narrowed, as it is without guards. -/
theorem candidate_eq {smoothed : List α} (hsmoothed : smoothed.length = charge.length)
    (leastIncrease : α) {shortest : Span} (hshortest : 0 ≤ shortest) (hclimb : climb.1 < climb.2)
    (htop : climb.2 < charge.length) :
    candidate charge odometer smoothed leastIncrease shortest climb =
      some (Recharge.candidate charge odometer smoothed leastIncrease shortest climb) := by
  have hfoot : climb.1 < charge.length := by omega
  have hbetween := between_eq_cons (Nat.le_of_lt hclimb) (List.getElem?_eq_getElem hfoot)
  obtain ⟨low, high, a, b, hnarrow, ha, hb, hnarrowed⟩ :=
    narrow_eq (Nat.le_of_lt hclimb) htop hbetween
  rw [candidate, Recharge.candidate, hbetween,
    List.getElem?_eq_getElem (show climb.1 < smoothed.length by omega),
    List.getElem?_eq_getElem (show climb.2 < smoothed.length by omega),
    List.getElem?_eq_getElem hfoot, List.getElem?_eq_getElem htop]
  simp only [Option.bind_eq_bind, Option.bind_some]
  split
  · rw [hnarrow, hnarrowed]
    simp only [Option.bind_some, ha, hb]
    by_cases hlong : shortest ≤ (⟨a.time, b.time⟩ : Range).length
    · -- the odometer is only looked up in a range that goes forward
      have hforward : a.time ≤ b.time := Int.le_of_sub_nonneg (Int.le_trans hshortest hlong)
      rw [if_pos hlong, parkedDuring_eq hforward]
      simp only [Option.bind_some, hlong, true_and]
      rfl
    · simp only [hlong, if_false, false_and]
      rfl
  · rfl

theorem candidates_eq (charge odometer : List (Sample Float)) (leastIncrease : Float)
    {shortest : Span} (hshortest : 0 ≤ shortest) :
    candidates charge odometer leastIncrease shortest =
      Recharge.candidates charge odometer leastIncrease shortest := by
  rw [candidates, rollingMean_eq, Option.bind_eq_bind, Option.bind_some, risingFrom_eq,
    Recharge.candidates]
  cases hclimbs : Telematics.rises
      (Series.rollingMean Recharge.smoothing (charge.map Sample.value)) with
  | none => rfl
  | some climbs =>
      have hlength : (Series.rollingMean Recharge.smoothing (charge.map Sample.value)).length =
          charge.length := by
        rw [Series.length_rollingMean, List.length_map]
      rw [Option.bind_eq_bind, Option.bind_some, Option.map_some]
      apply collect_eq
      intro climb hclimb
      have hfound := (mem_rises_iff (fun _ _ => FloatOrder.not_lt_of_le) hclimbs).1 hclimb
      exact candidate_eq hlength leastIncrease hshortest hfound.lt (hlength ▸ hfound.lt_length)

/-! ## Answers -/

variable {now : Instant} {r : Request}

/-- The guarded steps come to what the plain ones come to, which is nothing where two smoothed
levels cannot be compared. -/
theorem recharge_eq (hr : r.Roomy now) (log : Log) :
    recharge log r = Recharge.answer r.asked (log.charges r) (log.odometers r)
      (r.tuning.minIncrease Recharge.defaultIncrease)
      (r.tuning.minSegment Recharge.defaultMinSegment) := by
  have hlookback : seconds (3600 * 2) = some Recharge.lookback :=
    seconds_eq (by decide) (by decide)
  have hfirst : earlier r.asked.start Recharge.lookback =
      some (r.asked.start - Recharge.lookback) := earlier_start hr (by decide) (by decide)
  have hdefault : Tunable.minSegment.allows Recharge.defaultMinSegment = true := by decide
  have hshortest := Int.le_of_lt (Tuning.minSegment_pos hr.allowed hdefault)
  rw [recharge, hlookback, Option.bind_eq_bind, Option.bind_some, hfirst, Option.bind_eq_bind,
    Option.bind_some, Recharge.answer]
  show (if (log.charges r).length < Recharge.leastSamples then _ else _) = _
  split
  · rfl
  · rw [minSegment_eq hr.allowed hdefault, Option.bind_eq_bind, Option.bind_some]
    show (candidates (log.charges r) (log.odometers r) _ _).bind _ = _
    rw [candidates_eq _ _ _ hshortest]
    cases Recharge.candidates (log.charges r) (log.odometers r)
        (r.tuning.minIncrease Recharge.defaultIncrease)
        (r.tuning.minSegment Recharge.defaultMinSegment) with
    | none => rfl
    | some found =>
        show (mergeWith Recharge.longestGap (sameOdometer (log.odometers r)) found).bind _ = _
        rw [mergeWith_eq _ (sameOdometer_eq _)]
        exact clip_eq hr.length_le _ _ _

end Telematics.Guarded
