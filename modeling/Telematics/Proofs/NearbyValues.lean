import Mathlib.Algebra.BigOperators.Fin
import Mathlib.Algebra.Order.BigOperators.Expect
import Telematics.Proofs.CentredMeans
import Telematics.Proofs.GuardedClimbs

/-!
# Means of nearby values

The plain rule for smoothing speaks of positions only: the value at a position becomes the mean of
the values at most half a window away from it, as many of them as there are (`Series.centredMean`).
The sum of the values before a limit is a running sum (`Series.sum_take_eq`), and the positions near
a position are those before one limit that are not before another one (`Series.near_eq_sdiff`); so
the difference of two running sums is the sum that the rule asks for, also where the window is cut
at an end of the list or at both.

That no mean is taken of nothing is a statement about the computation, too: in `Checked` arithmetic
a division by zero gives no number, and smoothing comes to the same numbers there as without the
check (`Checked.rollingMean_map_of`).
-/

set_option autoImplicit false

namespace Telematics

/-! ## Division by zero -/

/-- An exact number, missing where a division by zero should have given it. -/
structure Checked where
  value? : Option Rat

namespace Checked

/-- A number that is there. -/
def of (x : Rat) : Checked := ⟨some x⟩

/-- What an operation gives for two numbers, unless one of them is missing. -/
def apply (op : Rat → Rat → Option Rat) (a b : Checked) : Checked :=
  ⟨a.value?.bind fun x => b.value?.bind (op x)⟩

/-- A test of two numbers, which fails if one of them is missing. -/
def test (holds : Rat → Rat → Bool) (a b : Checked) : Bool :=
  a.value?.any fun x => b.value?.any (holds x)

/-- Exact arithmetic in which no number is divided by zero. -/
instance : Level Checked where
  add := apply fun x y => some (x + y)
  sub := apply fun x y => some (x - y)
  mul := apply fun x y => some (x * y)
  div := apply fun x y => if y = 0 then none else some (x / y)
  lt := fun a b => test (fun x y => decide (x < y)) a b = true
  le := fun a b => test (fun x y => decide (x ≤ y)) a b = true
  ofScientific := fun mantissa negative exponent =>
    of (OfScientific.ofScientific mantissa negative exponent)
  ofCount := fun n => of n
  decideLt := fun a b => inferInstanceAs (Decidable (test _ a b = true))
  decideLe := fun a b => inferInstanceAs (Decidable (test _ a b = true))
  same := test fun x y => x == y

theorem of_add (x y : Rat) : of x + of y = of (x + y) := rfl

theorem of_sub (x y : Rat) : of x - of y = of (x - y) := rfl

theorem of_div {y : Rat} (x : Rat) (h : y ≠ 0) : of x / of y = of (x / y) :=
  congrArg Checked.mk (if_neg h)

theorem runningSums_map_of (sum : Rat) (xs : List Rat) :
    Series.runningSums (of sum) (xs.map of) = (Series.runningSums sum xs).map of := by
  induction xs generalizing sum with
  | nil => rfl
  | cons x xs ih =>
      rw [List.map_cons, Series.runningSums, Series.runningSums, List.map_cons, of_add, ih]

/-- Smoothing never divides by zero. -/
theorem rollingMean_map_of (window : Nat) (values : List Rat) :
    Series.rollingMean window (values.map of) = (Series.rollingMean window values).map of := by
  rw [Series.rollingMean, Series.rollingMean]
  split
  · rfl
  · have hsums : Series.runningSums (0.0 : Checked) (values.map of) =
        (Series.runningSums 0.0 values).map of := runningSums_map_of 0.0 values
    have hread : ∀ k, ((Series.runningSums 0.0 values).map of).toArray.getD k 0.0 =
        of ((Series.runningSums (0.0 : Rat) values).toArray.getD k 0.0) := by
      intro k
      rw [Array.getD_eq_getD_getElem?, Array.getD_eq_getD_getElem?, List.getElem?_toArray,
        List.getElem?_toArray, List.getElem?_map]
      exact Option.getD_map of (0.0 : Rat) _
    rw [hsums, List.length_map, List.map_map]
    apply List.map_congr_left
    intro i hi
    rw [List.mem_range] at hi
    -- the position itself lies between the two limits
    have hcount : ((min (i + window / 2 + 1) values.length - (i - window / 2) : Nat) : Rat) ≠ 0 :=
      Nat.cast_ne_zero.2 (by omega)
    simp only [hread, of_sub, Function.comp]
    exact of_div _ hcount

end Checked

namespace Series

open scoped Finset

variable {values : List Rat} {half window n : Nat}

/-! ## Positions -/

/-- The positions of a list that are at most `half` away from one of them. -/
def near (half : Nat) (i : Fin n) : Finset (Fin n) :=
  {j | (i : Int) - half ≤ j ∧ (j : Int) ≤ i + half}

/-- The positions before a limit. -/
def before (n limit : Nat) : Finset (Fin n) := {j | (j : Nat) < limit}

/-- Each position is near itself. -/
theorem near_nonempty (half : Nat) (i : Fin n) : (near half i).Nonempty := by
  refine ⟨i, ?_⟩
  simp only [near, Finset.mem_filter, Finset.mem_univ, true_and]
  omega

theorem before_subset {low high : Nat} (h : low ≤ high) : before n low ⊆ before n high :=
  Finset.monotone_filter_right _ fun _ _ hj => Nat.lt_of_lt_of_le hj h

/-- The positions near a position are those before one limit that are not before another one. The
first limit may lie after the end of the list, and the second one is never below zero. -/
theorem near_eq_sdiff (half : Nat) (i : Fin n) :
    near half i = before n (i + half + 1) \ before n (i - half) := by
  ext j
  simp only [near, before, Finset.mem_sdiff, Finset.mem_filter, Finset.mem_univ, true_and]
  omega

/-! ## Sums over positions -/

theorem sum_take_eq (values : List Rat) (limit : Nat) :
    (values.take limit).sum = ∑ j ∈ before values.length limit, values[j] := by
  have h := List.sum_take_ofFn values.get limit
  rw [List.ofFn_get] at h
  exact h

theorem sum_around_eq (half : Nat) (i : Fin values.length) :
    (around half i values).sum = ∑ j ∈ near half i, values[j] := by
  rw [sum_around, sum_take_eq, sum_take_eq, near_eq_sdiff,
    Finset.sum_sdiff_eq_sub (before_subset (by omega))]

theorem length_around_eq (half : Nat) (i : Fin values.length) :
    (around half i values).length = #(near half i) := by
  rw [length_around, near_eq_sdiff, Finset.card_sdiff_of_subset (before_subset (by omega)), before,
    before, Fin.card_filter_val_lt, Fin.card_filter_val_lt]
  omega

/-! ## Means over positions -/

/-- The mean of the values near a position. -/
def centredMean (half : Nat) (values : List Rat) (i : Fin values.length) : Rat :=
  (∑ j ∈ near half i, values[j]) / #(near half i)

theorem mean_around_eq (half : Nat) (i : Fin values.length) :
    mean (around half i values) = centredMean half values i := by
  rw [mean, sum_around_eq, length_around_eq, centredMean]

theorem inf'_le_centredMean (half : Nat) (i : Fin values.length) :
    (near half i).inf' (near_nonempty half i) (fun j => values[j]) ≤ centredMean half values i := by
  rw [centredMean, ← Finset.expect_eq_sum_div_card]
  exact Finset.le_expect (near_nonempty half i) fun j hj => Finset.inf'_le _ hj

theorem centredMean_le_sup' (half : Nat) (i : Fin values.length) :
    centredMean half values i ≤ (near half i).sup' (near_nonempty half i) fun j => values[j] := by
  rw [centredMean, ← Finset.expect_eq_sum_div_card]
  exact Finset.expect_le (near_nonempty half i) fun j hj => Finset.le_sup' (fun j => values[j]) hj

/-! ## Smoothed values -/

/-- The values are smoothed by the plain rule. -/
structure Averages (half : Nat) (values smoothed : List Rat) : Prop where
  length_eq : smoothed.length = values.length
  /-- At every position there is a value to average. -/
  nonempty : ∀ i : Fin values.length, (near half i).Nonempty
  getElem?_eq : ∀ i : Fin values.length, smoothed[i]? = some (centredMean half values i)
  /-- A smoothed value is between the least and the greatest of the values that it averages. -/
  between : ∀ (i : Fin values.length) (m : Rat), smoothed[i]? = some m →
    (near half i).inf' (nonempty i) (fun j => values[j]) ≤ m ∧
      m ≤ (near half i).sup' (nonempty i) fun j => values[j]

theorem averages_of_ne_zero (hwindow : window ≠ 0) (values : List Rat) :
    Averages (window / 2) values (rollingMean window values) := by
  have hmeans : ∀ i : Fin values.length,
      (rollingMean window values)[i]? = some (centredMean (window / 2) values i) := by
    intro i
    rw [← mean_around_eq]
    exact getElem?_rollingMean hwindow i.isLt
  refine ⟨length_rollingMean window values, near_nonempty (window / 2), hmeans, ?_⟩
  intro i m hm
  obtain rfl := Option.some.inj ((hmeans i).symm.trans hm)
  exact ⟨inf'_le_centredMean _ i, centredMean_le_sup' _ i⟩

/-- Values that are all the same stay as they are: the least and the greatest near a position are
that value. -/
theorem Averages.eq_of_constant {smoothed : List Rat} {v : Rat}
    (h : Averages half values smoothed) (hv : ∀ x ∈ values, x = v) : smoothed = values := by
  have hat : ∀ i : Fin values.length, values[i] = v := fun i => hv _ (List.getElem_mem i.isLt)
  refine List.ext_getElem h.length_eq fun i hi hi' => ?_
  obtain ⟨hlow, hhigh⟩ := h.between ⟨i, hi'⟩ smoothed[i] (List.getElem?_eq_getElem hi)
  simp only [hat, Finset.inf'_const, Finset.sup'_const] at hlow hhigh
  exact (le_antisymm hhigh hlow).trans (hat ⟨i, hi'⟩).symm

/-- Running sums smooth values by the plain rule, in any window that is not empty: all sums that are
looked up exist, and no division is by zero. So values that are all the same stay as they are. -/
theorem rollingMean_averages (hwindow : 1 ≤ window) (values : List Rat) :
    Averages (window / 2) values (rollingMean window values) ∧
      Guarded.rollingMean window (values.map Checked.of) =
        some ((rollingMean window values).map Checked.of) ∧
      ∀ v, (∀ x ∈ values, x = v) → rollingMean window values = values := by
  have haverages := averages_of_ne_zero (Nat.ne_of_gt hwindow) values
  refine ⟨haverages, ?_, fun v hv => haverages.eq_of_constant hv⟩
  rw [Guarded.rollingMean_eq, Checked.rollingMean_map_of]

/-- One value that is larger than the ones around it. -/
def spike : List Rat := [0, 0, 3, 0, 0]

/-- The spike is spread in a window of three; five equal values stay in a window that is wider than
the list. -/
theorem rollingMean_averages_spike :
    (1 ≤ 3 ∧ rollingMean 3 spike = [0, 1, 1, 1, 0] ∧ Averages 1 spike (rollingMean 3 spike) ∧
        Guarded.rollingMean 3 (spike.map Checked.of) =
          some ((rollingMean 3 spike).map Checked.of)) ∧
      1 ≤ 11 ∧ (∀ x ∈ List.replicate 5 (4 : Rat), x = 4) ∧
        rollingMean 11 (List.replicate 5 4) = List.replicate 5 (4 : Rat) := by
  have hthree : 1 ≤ 3 := by decide
  have heleven : 1 ≤ 11 := by decide
  have hequal : ∀ x ∈ List.replicate 5 (4 : Rat), x = 4 := fun x hx => List.eq_of_mem_replicate hx
  obtain ⟨haverages, hguarded, -⟩ := rollingMean_averages hthree spike
  obtain ⟨-, -, hconstant⟩ := rollingMean_averages heleven (List.replicate 5 4)
  exact ⟨⟨hthree, by decide +kernel, haverages, hguarded⟩, heleven, hequal, hconstant 4 hequal⟩

end Series

end Telematics
