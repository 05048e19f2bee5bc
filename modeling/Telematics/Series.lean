import Telematics.Level
import Telematics.Time.Instant

/-!
# Series of readings

A series is a list of samples in the order of their times. Besides looking readings up by time it
can be smoothed: `rollingMean` replaces each value by the mean of the values around it, taken from
running sums, with shorter windows at both ends.
-/

set_option autoImplicit false

namespace Telematics

/-- One reading of a level. -/
structure Sample (α : Type) where
  /-- When it was read. -/
  time : Instant
  /-- What was read. -/
  value : α

namespace Series

variable {α : Type}

/-- The samples up to and including an instant. -/
def upTo (t : Instant) (samples : List (Sample α)) : List (Sample α) :=
  samples.takeWhile fun s => decide (s.time ≤ t)

/-- The position of the last sample at or before an instant. -/
def indexAtOrBefore (t : Instant) (samples : List (Sample α)) : Option Nat :=
  match (upTo t samples).length with
  | 0 => none
  | n + 1 => some n

/-- The last value at or before an instant. -/
def valueAtOrBefore (t : Instant) (samples : List (Sample α)) : Option α :=
  (upTo t samples).getLast?.map Sample.value

/-- The samples between two instants, both included. -/
def within (start stop : Instant) (samples : List (Sample α)) : List (Sample α) :=
  upTo stop (samples.dropWhile fun s => decide (s.time < start))

/-- The first and the last value between two instants, both included. -/
def firstLast (start stop : Instant) (samples : List (Sample α)) : Option (α × α) :=
  match (within start stop samples).head?, (within start stop samples).getLast? with
  | some first, some last => some (first.value, last.value)
  | _, _ => none

variable [Level α]

/-- The sums of all initial parts of a list, from the given one on. -/
def runningSums (sum : α) : List α → List α
  | [] => [sum]
  | x :: xs => sum :: runningSums (sum + x) xs

/-- The mean of the values around each value, so many in all: half of them before it, and as many
after it. At the ends it is the mean of those that exist. No window leaves the values as they are.
-/
def rollingMean (window : Nat) (values : List α) : List α :=
  if window = 0 then values
  else
    let half := window / 2
    let sums := (runningSums (0.0 : α) values).toArray
    (List.range values.length).map fun i =>
      let low := i - half
      let high := min (i + half + 1) values.length
      (sums.getD high 0.0 - sums.getD low 0.0) / Level.ofCount (high - low)

/-- There is one running sum more than there are values. -/
theorem length_runningSums (sum : α) (xs : List α) :
    (runningSums sum xs).length = xs.length + 1 := by
  induction xs generalizing sum with
  | nil => rfl
  | cons x xs ih => simp [runningSums, ih]

/-- Smoothing keeps the number of values. -/
theorem length_rollingMean (window : Nat) (values : List α) :
    (rollingMean window values).length = values.length := by
  simp only [rollingMean]
  split <;> simp

end Series

end Telematics
