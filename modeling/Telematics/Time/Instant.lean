/-!
# Instants and lengths of time

An instant is a whole number of nanoseconds since the Unix epoch, and a length of time is a whole
number of nanoseconds, so that sums, differences and comparisons are those of the integers.
The calendar holds finitely many instants; `Instant.InCalendar` says which. `Instant.alignDown`
rounds an instant down to a whole step since the epoch, and `Instant.every` lists the instants of an
even scan.
-/

set_option autoImplicit false

namespace Telematics

/-- A length of time in nanoseconds. Negative lengths look back. -/
abbrev Span := Int

namespace Span

/-- The nanoseconds of one second. -/
def nanosPerSecond : Nat := 1000000000

/-- So many whole seconds. -/
def seconds (n : Int) : Span := n * 1000000000

/-- So many whole minutes. -/
def minutes (n : Int) : Span := seconds (60 * n)

/-- So many whole hours. -/
def hours (n : Int) : Span := seconds (3600 * n)

/-- So many whole days. -/
def days (n : Int) : Span := seconds (86400 * n)

/-- The whole seconds of a length: the fraction is dropped toward zero. -/
def wholeSeconds (d : Span) : Int := Int.tdiv d 1000000000

end Span

/-- A point in time: nanoseconds since the Unix epoch, negative before it. -/
structure Instant where
  nanos : Int
deriving DecidableEq

namespace Instant

/-- The instant so many whole seconds after the epoch. -/
def ofSeconds (n : Int) : Instant := ⟨Span.seconds n⟩

/-- The second an instant lies in: the last whole second at or before it. -/
def second (t : Instant) : Int := t.nanos / 1000000000

/-- The nanoseconds of an instant past its second. -/
def subsecond (t : Instant) : Nat := (t.nanos % 1000000000).toNat

instance : LE Instant := ⟨fun a b => a.nanos ≤ b.nanos⟩

instance : LT Instant := ⟨fun a b => a.nanos < b.nanos⟩

theorem le_iff (a b : Instant) : a ≤ b ↔ a.nanos ≤ b.nanos := Iff.rfl

theorem lt_iff (a b : Instant) : a < b ↔ a.nanos < b.nanos := Iff.rfl

instance (a b : Instant) : Decidable (a ≤ b) := decidable_of_iff _ (le_iff a b).symm

instance (a b : Instant) : Decidable (a < b) := decidable_of_iff _ (lt_iff a b).symm

instance : Max Instant := ⟨fun a b => ⟨max a.nanos b.nanos⟩⟩

instance : Min Instant := ⟨fun a b => ⟨min a.nanos b.nanos⟩⟩

instance : HAdd Instant Span Instant := ⟨fun t d => ⟨t.nanos + d⟩⟩

instance : HSub Instant Span Instant := ⟨fun t d => ⟨t.nanos - d⟩⟩

instance : HSub Instant Instant Span := ⟨fun a b => a.nanos - b.nanos⟩

@[simp] theorem nanos_add (t : Instant) (d : Span) : (t + d).nanos = t.nanos + d := rfl

@[simp] theorem nanos_sub (t : Instant) (d : Span) : (t - d).nanos = t.nanos - d := rfl

@[simp] theorem sub_eq (a b : Instant) : (a - b : Span) = a.nanos - b.nanos := rfl

@[simp] theorem nanos_max (a b : Instant) : (max a b).nanos = max a.nanos b.nanos := rfl

@[simp] theorem nanos_min (a b : Instant) : (min a b).nanos = min a.nanos b.nanos := rfl

theorem le_trans {a b c : Instant} (hab : a ≤ b) (hbc : b ≤ c) : a ≤ c := Int.le_trans hab hbc

theorem eq_of_nanos_eq {a b : Instant} (h : a.nanos = b.nanos) : a = b := by
  cases a with
  | mk a =>
      cases b with
      | mk b => exact congrArg mk h

theorem le_antisymm {a b : Instant} (hab : a ≤ b) (hba : b ≤ a) : a = b :=
  eq_of_nanos_eq (Int.le_antisymm hab hba)

theorem min_eq_left {a b : Instant} (h : a ≤ b) : min a b = a :=
  eq_of_nanos_eq (Int.min_eq_left h)

theorem min_eq_right {a b : Instant} (h : b ≤ a) : min a b = b :=
  eq_of_nanos_eq (Int.min_eq_right h)

theorem max_eq_left {a b : Instant} (h : b ≤ a) : max a b = a :=
  eq_of_nanos_eq (Int.max_eq_left h)

theorem max_eq_right {a b : Instant} (h : a ≤ b) : max a b = b :=
  eq_of_nanos_eq (Int.max_eq_right h)

theorem not_le {a b : Instant} : ¬ a ≤ b ↔ b < a := Int.not_le

theorem not_lt {a b : Instant} : ¬ a < b ↔ b ≤ a := Int.not_lt

/-- An instant is at most a length after another one. -/
theorem sub_le_iff (a b : Instant) (d : Span) : a - b ≤ d ↔ a.nanos ≤ b.nanos + d :=
  ⟨Int.le_add_of_sub_left_le, Int.sub_left_le_of_le_add⟩

/-- An instant is at least a length after another one. -/
theorem le_sub_iff (a b : Instant) (d : Span) : d ≤ a - b ↔ b.nanos + d ≤ a.nanos :=
  ⟨Int.add_le_of_le_sub_left, Int.le_sub_left_of_add_le⟩

/-- An instant is less than a length after another one. -/
theorem sub_lt_iff (a b : Instant) (d : Span) : a - b < d ↔ a.nanos < b.nanos + d :=
  ⟨Int.lt_add_of_sub_left_lt, Int.sub_left_lt_of_lt_add⟩

/-- The first second of the calendar, at the start of the year -262143. -/
def firstSecond : Int := -8334601228800

/-- The last second of the calendar, at the end of the year 262142. -/
def lastSecond : Int := 8210266876799

/-- The calendar reaches from its first second to the end of its last one. -/
def InCalendar (t : Instant) : Prop := firstSecond ≤ t.second ∧ t.second ≤ lastSecond

instance (t : Instant) : Decidable t.InCalendar :=
  inferInstanceAs (Decidable (_ ∧ _))

/-- The last multiple of `step` seconds since the epoch at or before an instant. An instant whose
rounded value leaves the calendar stays as it is. -/
def alignDown (t : Instant) (step : Int) : Instant :=
  let aligned := ofSeconds (t.second - t.second % step)
  if aligned.InCalendar then aligned else t

/-- The instants `start`, `start + step`, … before `stop`. -/
def every (step : Span) (start stop : Instant) : List Instant :=
  let count := ((stop.nanos - start.nanos + step - 1) / step).toNat
  (List.range count).map fun (i : Nat) => start + step * (i : Int)

/-- Rounding down to a whole step goes back by less than a step. -/
theorem lt_alignDown_add (t : Instant) {step : Int} (hstep : 0 < step) :
    t.nanos < (t.alignDown step).nanos + Span.seconds step := by
  have hmod : 0 ≤ t.second % step ∧ t.second % step < step :=
    ⟨Int.emod_nonneg _ (by omega), Int.emod_lt_of_pos _ hstep⟩
  have hsecond : t.second = t.nanos / 1000000000 := rfl
  rw [alignDown]
  split
  · show t.nanos < (t.second - t.second % step) * 1000000000 + step * 1000000000
    omega
  · show t.nanos < t.nanos + step * 1000000000
    omega

/-- Rounding down does not move an instant forward. -/
theorem alignDown_le (t : Instant) {step : Int} (hstep : 0 < step) :
    t.alignDown step ≤ t := by
  have hmod : 0 ≤ t.second % step := Int.emod_nonneg _ (Int.ne_of_gt hstep)
  have hsecond : t.second = t.nanos / 1000000000 := rfl
  rw [alignDown, le_iff]
  split
  · show (t.second - t.second % step) * 1000000000 ≤ t.nanos
    omega
  · exact Int.le_refl _

/-- A scan holds exactly the multiples of the step from its start that lie before its end. -/
theorem mem_every {step : Span} {start stop t : Instant} (h : 0 < step) :
    t ∈ every step start stop ↔ ∃ i : Nat, t = start + step * (i : Int) ∧ t < stop := by
  simp only [every, List.mem_map, List.mem_range]
  constructor
  · rintro ⟨i, hi, rfl⟩
    refine ⟨i, rfl, ?_⟩
    have hlt : (i : Int) < (stop.nanos - start.nanos + step - 1) / step := by omega
    have hle : ((i : Int) + 1) * step ≤ stop.nanos - start.nanos + step - 1 :=
      Int.le_ediv_iff_mul_le h |>.mp (by omega)
    rw [lt_iff, nanos_add]
    rw [Int.add_mul, Int.one_mul, Int.mul_comm] at hle
    omega
  · rintro ⟨i, rfl, hlt⟩
    refine ⟨i, ?_, rfl⟩
    rw [lt_iff, nanos_add] at hlt
    have hle : ((i : Int) + 1) ≤ (stop.nanos - start.nanos + step - 1) / step := by
      rw [Int.le_ediv_iff_mul_le h, Int.add_mul, Int.one_mul, Int.mul_comm]
      omega
    omega

/-- The instants of a scan lie between its start and its end. -/
theorem bounds_of_mem_every {step : Span} {start stop t : Instant} (h : 0 < step)
    (ht : t ∈ every step start stop) : start ≤ t ∧ t < stop := by
  obtain ⟨i, rfl, hlt⟩ := (mem_every h).1 ht
  exact ⟨Int.le_add_of_nonneg_right (Int.mul_nonneg (Int.le_of_lt h) (Int.natCast_nonneg i)), hlt⟩

end Instant

end Telematics
