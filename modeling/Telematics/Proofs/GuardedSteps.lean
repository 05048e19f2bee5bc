import Telematics.Proofs.CalendarMinutes
import Telematics.Proofs.ValidRequests

/-!
# Guarded steps

Dates, lengths of time and positions in a list have bounds, and a step that leaves them breaks a
computation off. A guarded step has a result only where the plain step stays inside the bounds, and
is then that step. A computation of guarded steps has no result when one of its steps has none, or
when one of its loops would not end.

An accepted request has margins that lie in the calendar (`Request.Roomy`), so that a date can be
moved as long as it stays inside them (`later_eq`, `earlier_eq`, `scan_eq`), and its tunables are
lengths of time (`minIdle_eq`, `minSegment_eq`, `maxGap_eq`).
-/

set_option autoImplicit false

namespace Telematics

/-! ## Room around the asked range -/

namespace Instant

/-- A scan from its end on is empty. -/
theorem every_of_le {step : Span} {start stop : Instant} (h : 0 < step) (hle : stop ≤ start) :
    every step start stop = [] := by
  rw [List.eq_nil_iff_forall_not_mem]
  intro t ht
  obtain ⟨hstart, hstop⟩ := bounds_of_mem_every h ht
  exact absurd (Int.lt_of_le_of_lt (le_trans hle hstart) hstop) (Int.lt_irrefl _)

/-- A scan before its end begins with its start and goes on a step later. -/
theorem every_of_lt {step : Span} {start stop : Instant} (h : 0 < step) (hlt : start < stop) :
    every step start stop = start :: every step (start + step) stop := by
  rw [lt_iff] at hlt
  -- from the next instant on there is one instant less
  have hone : (stop.nanos - start.nanos + step - 1) / step =
      (stop.nanos - (start + step).nanos + step - 1) / step + 1 := by
    have hshift : stop.nanos - start.nanos + step - 1 =
        stop.nanos - (start + step).nanos + step - 1 + 1 * step := by
      rw [nanos_add]
      omega
    rw [hshift, Int.add_mul_ediv_right _ _ (Int.ne_of_gt h)]
  have hnonneg : 0 ≤ (stop.nanos - (start + step).nanos + step - 1) / step := by
    apply Int.ediv_nonneg _ (Int.le_of_lt h)
    rw [nanos_add]
    omega
  rw [every, hone, Int.toNat_add hnonneg (by decide), Int.toNat_one, List.range_succ_eq_map,
    List.map_cons, List.map_map]
  congr 1
  · apply eq_of_nanos_eq
    simp
  · rw [every]
    apply List.map_congr_left
    intro i _
    apply eq_of_nanos_eq
    simp only [Function.comp, nanos_add, Nat.succ_eq_add_one, Int.natCast_add, Int.mul_add]
    omega

end Instant

/-- An accepted request whose range lies in the calendar together with its margins. -/
structure Request.Roomy (now : Instant) (r : Request) : Prop extends r.Accepted now where
  /-- There is room before the range. -/
  before : (r.asked.start - margin).InCalendar
  /-- There is room after it. -/
  after : (r.asked.stop + margin).InCalendar

/-- A request that is not rejected has its margins in the calendar. -/
theorem Request.roomy_of_rejection_eq_none {now : Instant} {r : Request}
    (h : r.rejection now = none) : r.Roomy now := by
  have hr := accepted_of_rejection_eq_none h
  rw [rejection] at h
  split at h
  · exact absurd h (by simp)
  · split at h
    · exact absurd h (by simp)
    · split at h
      · exact absurd h (by simp)
      · rename_i hmargins
        rw [not_or, Decidable.not_not, Decidable.not_not] at hmargins
        exact ⟨hr, hmargins.1, hmargins.2⟩

/-- An instant that the margins of 25 hours reach is in the calendar. -/
theorem Request.Roomy.inCalendar {now t : Instant} {r : Request} (hr : r.Roomy now)
    (hlow : r.asked.start.nanos ≤ t.nanos + 90000000000000)
    (hhigh : t.nanos ≤ r.asked.stop.nanos + 90000000000000) : t.InCalendar :=
  Instant.inCalendar_of_le_of_le hr.before hr.after (Int.sub_right_le_of_le_add hlow) hhigh

namespace Guarded

/-! ## Lengths of time and dates -/

/-- The most seconds that a length of time holds. -/
def mostSeconds : Int := 9223372036854775

/-- So many whole seconds, if a length of time holds them. -/
def seconds (n : Int) : Option Span :=
  if -mostSeconds ≤ n ∧ n ≤ mostSeconds then some (Span.seconds n) else none

/-- A date moved forward, if it stays in the calendar. -/
def later (t : Instant) (d : Span) : Option Instant :=
  if (t + d).InCalendar then some (t + d) else none

/-- A date moved back, if it stays in the calendar. -/
def earlier (t : Instant) (d : Span) : Option Instant :=
  if (t - d).InCalendar then some (t - d) else none

theorem seconds_eq {n : Int} (hlow : -mostSeconds ≤ n) (hhigh : n ≤ mostSeconds) :
    seconds n = some (Span.seconds n) := if_pos ⟨hlow, hhigh⟩

theorem later_eq {t : Instant} {d : Span} (h : (t + d).InCalendar) : later t d = some (t + d) :=
  if_pos h

theorem earlier_eq {t : Instant} {d : Span} (h : (t - d).InCalendar) :
    earlier t d = some (t - d) := if_pos h

/-- The start of the range can be moved back by up to 25 hours. -/
theorem earlier_start {now : Instant} {r : Request} (hr : r.Roomy now) {n : Int} (h0 : 0 ≤ n)
    (h : n ≤ 90000) : earlier r.asked.start (Span.seconds n) =
      some (r.asked.start - Span.seconds n) := by
  have hascending := hr.ascending
  rw [Instant.lt_iff] at hascending
  apply earlier_eq
  apply hr.inCalendar <;> rw [Instant.nanos_sub, Span.seconds] <;> omega

/-- The end of the range can be moved forward by up to 25 hours. -/
theorem later_stop {now : Instant} {r : Request} (hr : r.Roomy now) {n : Int} (h0 : 0 ≤ n)
    (h : n ≤ 90000) : later r.asked.stop (Span.seconds n) =
      some (r.asked.stop + Span.seconds n) := by
  have hascending := hr.ascending
  rw [Instant.lt_iff] at hascending
  apply later_eq
  apply hr.inCalendar <;> rw [Instant.nanos_add, Span.seconds] <;> omega

/-- The instants of an even scan. Each step is taken, also the one that leads past the end; a step
that does not lead forward would be taken for ever. -/
def scan (step : Span) (slot stop : Instant) : Option (List Instant) :=
  if _hslot : slot < stop then
    match later slot step with
    | none => none
    | some next =>
      if _hnext : slot < next then (scan step next stop).map fun rest => slot :: rest else none
  else some []
termination_by (stop.nanos - slot.nanos).toNat
decreasing_by
  rw [Instant.lt_iff] at *
  omega

/-- A scan stays in the calendar when each of its instants can be moved by a step. -/
theorem scan_eq {step : Span} (hstep : 0 < step) {slot stop : Instant}
    (hroom : ∀ t : Instant, slot ≤ t → t < stop → (t + step).InCalendar) :
    scan step slot stop = some (Instant.every step slot stop) := by
  fun_induction scan step slot stop with
  | case1 slot hslot hnone =>
      rw [later_eq (hroom slot (Int.le_refl _) hslot)] at hnone
      exact absurd hnone (by simp)
  | case2 slot hslot next hlater hnext ih =>
      rw [later_eq (hroom slot (Int.le_refl _) hslot)] at hlater
      obtain rfl := Option.some.inj hlater
      rw [ih fun t ht => hroom t (Int.le_trans (Int.le_of_lt hnext) ht), Option.map_some,
        Instant.every_of_lt hstep hslot]
  | case3 slot hslot next hlater hnext =>
      rw [later_eq (hroom slot (Int.le_refl _) hslot)] at hlater
      obtain rfl := Option.some.inj hlater
      exact absurd (Int.lt_add_of_pos_right _ hstep) hnext
  | case4 slot hslot => rw [Instant.every_of_le hstep (Instant.not_lt.1 hslot)]

/-! ## Tunables -/

/-- The shortest time off that ends a trip. -/
def minIdle (t : Tuning) (defaultSeconds : Int) : Option Span :=
  seconds (t.minIdleSeconds.getD defaultSeconds)

/-- The shortest segment. -/
def minSegment (t : Tuning) (defaultSeconds : Int) : Option Span :=
  seconds (t.minSegmentSeconds.getD defaultSeconds)

/-- The longest gap inside a segment. -/
def maxGap (t : Tuning) (defaultSeconds : Int) : Option Span :=
  seconds (t.maxGapSeconds.getD defaultSeconds)

variable {t : Tuning}

/-- A whole number that a tunable allows is a length of time in seconds. -/
theorem seconds_eq_of_allows {tunable : Tunable} {n : Int} (h : tunable.allows n = true) :
    seconds n = some (Span.seconds n) := by
  obtain ⟨hlow, hhigh⟩ := Tuning.allows_iff.1 h
  -- no tunable allows more than two hours
  have hmost : (tunable.high : Int) ≤ 7200 := by cases tunable <;> decide
  refine seconds_eq ?_ ?_ <;> rw [mostSeconds] <;> omega

theorem minIdle_eq (h : t.firstOutside = none) {default : Int}
    (hdefault : Tunable.minIdle.allows default = true) :
    minIdle t default = some (t.minIdle default) :=
  seconds_eq_of_allows (Tuning.allowed_getD (Tuning.firstOutside_eq_none_iff.1 h).1 hdefault)

theorem minSegment_eq (h : t.firstOutside = none) {default : Int}
    (hdefault : Tunable.minSegment.allows default = true) :
    minSegment t default = some (t.minSegment default) :=
  seconds_eq_of_allows (Tuning.allowed_getD (Tuning.firstOutside_eq_none_iff.1 h).2.1 hdefault)

theorem maxGap_eq (h : t.firstOutside = none) {default : Int}
    (hdefault : Tunable.maxGap.allows default = true) :
    maxGap t default = some (t.maxGap default) :=
  seconds_eq_of_allows
    (Tuning.allowed_getD (Tuning.firstOutside_eq_none_iff.1 h).2.2.2.1 hdefault)

/-! ## Positions and lists -/

/-- A count less another one that is not larger. -/
def less (a b : Nat) : Option Nat := if b ≤ a then some (a - b) else none

theorem less_eq {a b : Nat} (h : b ≤ a) : less a b = some (a - b) := if_pos h

/-- The element before which a loop stands is at its position, and the others follow it. -/
theorem getElem?_of_drop {α : Type} {xs ys : List α} {x : α} {i : Nat} (h : xs.drop i = x :: ys) :
    xs[i]? = some x ∧ xs.drop (i + 1) = ys := by
  constructor
  · rw [← List.head?_drop, h]
    rfl
  · rw [← List.tail_drop, h]
    rfl

/-- What a guarded rule keeps of each element of a list. -/
def collect {α β : Type} (rule : α → Option (Option β)) : List α → Option (List β)
  | [] => some []
  | x :: rest => do
    let first ← rule x
    let others ← collect rule rest
    return first.toList ++ others

/-- When the rule has a result for each element, it is applied as the plain rule is. -/
theorem collect_eq {α β : Type} {rule : α → Option (Option β)} {plain : α → Option β} {xs : List α}
    (h : ∀ x ∈ xs, rule x = some (plain x)) : collect rule xs = some (xs.filterMap plain) := by
  induction xs with
  | nil => rfl
  | cons x rest ih =>
      obtain ⟨hx, hrest⟩ := List.forall_mem_cons.1 h
      rw [collect, hx, ih hrest]
      cases hp : plain x with
      | none => rw [List.filterMap_cons_none hp]; rfl
      | some y => rw [List.filterMap_cons_some hp]; rfl

end Guarded

end Telematics
