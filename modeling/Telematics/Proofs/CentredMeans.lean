import Mathlib.Algebra.Order.BigOperators.Group.List
import Mathlib.Algebra.Order.Field.Rat
import Mathlib.Tactic.FieldSimp
import Mathlib.Tactic.Linarith
import Mathlib.Tactic.NormNum
import Telematics.Series

/-!
# Centred means

In exact arithmetic the difference of two running sums, divided by their distance, is the mean of
the values between them; so each smoothed value is the mean of the values around it
(`Series.getElem?_rollingMean`). From one position to the next such a window loses its first value
or none, and gains one after its last or none. A value beside some others moves their mean to its
own side (`Series.mean_cons_lt_iff`, `Series.lt_mean_cons_iff`), so smoothing keeps values that do
not rise from rising (`Series.pairwise_ge_rollingMean`), and values that rise stay rising where
there are as many of them as a window holds, since then every two windows differ
(`Series.pairwise_lt_rollingMean`).
-/

set_option autoImplicit false

namespace Telematics.Series

variable {values xs : List Rat} {x : Rat}

/-! ## Means -/

/-- The mean of some numbers. -/
def mean (xs : List Rat) : Rat := xs.sum / xs.length

theorem length_pos_of_ne_nil (h : xs ≠ []) : (0 : Rat) < xs.length :=
  Nat.cast_pos.2 (List.length_pos_iff.2 h)

theorem mean_mul_length (h : xs ≠ []) : mean xs * xs.length = xs.sum :=
  div_mul_cancel₀ _ (length_pos_of_ne_nil h).ne'

/-- What is below each of some numbers is below their mean. -/
theorem lt_mean (hne : xs ≠ []) (h : ∀ y ∈ xs, x < y) : x < mean xs := by
  have hsum := List.sum_lt_sum_of_ne_nil hne (fun _ => x) id h
  rw [List.map_id, List.map_const', List.sum_replicate, nsmul_eq_mul] at hsum
  rw [mean, lt_div_iff₀ (length_pos_of_ne_nil hne), mul_comm]
  exact hsum

theorem mean_lt (hne : xs ≠ []) (h : ∀ y ∈ xs, y < x) : mean xs < x := by
  have hsum := List.sum_lt_sum_of_ne_nil hne id (fun _ => x) h
  rw [List.map_id, List.map_const', List.sum_replicate, nsmul_eq_mul] at hsum
  rw [mean, div_lt_iff₀ (length_pos_of_ne_nil hne), mul_comm]
  exact hsum

theorem le_mean (hne : xs ≠ []) (h : ∀ y ∈ xs, x ≤ y) : x ≤ mean xs := by
  have hsum := List.card_nsmul_le_sum xs x h
  rw [nsmul_eq_mul] at hsum
  rw [mean, le_div_iff₀ (length_pos_of_ne_nil hne), mul_comm]
  exact hsum

theorem mean_le (hne : xs ≠ []) (h : ∀ y ∈ xs, y ≤ x) : mean xs ≤ x := by
  have hsum := List.sum_le_card_nsmul xs x h
  rw [nsmul_eq_mul] at hsum
  rw [mean, div_le_iff₀ (length_pos_of_ne_nil hne), mul_comm]
  exact hsum

/-- One more number moves the mean down exactly when it is below the mean. -/
theorem mean_cons_lt_iff (hne : xs ≠ []) : mean (x :: xs) < mean xs ↔ x < mean xs := by
  have hpos : (0 : Rat) < (x :: xs).length := length_pos_of_ne_nil (List.cons_ne_nil x xs)
  rw [mean, div_lt_iff₀ hpos, List.sum_cons, ← mean_mul_length hne, List.length_cons,
    Nat.cast_succ, mul_add, mul_one, add_comm, add_lt_add_iff_left]

/-- It moves the mean up exactly when it is above the mean. -/
theorem lt_mean_cons_iff (hne : xs ≠ []) : mean xs < mean (x :: xs) ↔ mean xs < x := by
  have hpos : (0 : Rat) < (x :: xs).length := length_pos_of_ne_nil (List.cons_ne_nil x xs)
  rw [mean, mean, lt_div_iff₀ hpos, List.sum_cons, ← mean, ← mean_mul_length hne,
    List.length_cons, Nat.cast_succ, mul_add, mul_one, add_comm x, add_lt_add_iff_left]

/-- It does not matter where the number stands. -/
theorem mean_concat (xs : List Rat) (x : Rat) : mean (xs ++ [x]) = mean (x :: xs) := by
  simp [mean, add_comm]

/-! ## Running sums -/

theorem getElem?_runningSums {sum : Rat} {k : Nat} (h : k ≤ xs.length) :
    (runningSums sum xs)[k]? = some (sum + (xs.take k).sum) := by
  induction xs generalizing sum k with
  | nil =>
      obtain rfl := Nat.le_zero.1 h
      simp [runningSums]
  | cons x xs ih =>
      cases k with
      | zero => simp [runningSums]
      | succ k =>
          have hnext : (runningSums (sum + x) xs)[k]? = some (sum + x + (xs.take k).sum) :=
            ih (Nat.le_of_succ_le_succ h)
          rw [List.take_succ_cons, List.sum_cons, ← add_assoc]
          exact hnext

/-- The values at most `half` positions away from a position. -/
def around (half i : Nat) (values : List Rat) : List Rat :=
  (values.take (i + half + 1)).drop (i - half)

theorem length_around (half i : Nat) (values : List Rat) :
    (around half i values).length = min (i + half + 1) values.length - (i - half) := by
  rw [around, List.length_drop, List.length_take]

/-- The sum of a window is the difference of two running sums. -/
theorem sum_around (half i : Nat) (values : List Rat) :
    (around half i values).sum =
      (values.take (i + half + 1)).sum - (values.take (i - half)).sum := by
  -- the longer of the two running sums goes on where the shorter one ends
  have hsplit := (values.take (i + half + 1)).sum_take_add_sum_drop (i - half)
  rw [List.take_take, Nat.min_eq_left (show i - half ≤ i + half + 1 by omega)] at hsplit
  exact eq_sub_of_add_eq' hsplit

/-- Each smoothed value is the mean of the values around it. -/
theorem getElem?_rollingMean {window i : Nat} (hwindow : window ≠ 0) (hi : i < values.length) :
    (rollingMean window values)[i]? = some (mean (around (window / 2) i values)) := by
  have hzero : (0.0 : Rat) = 0 := by norm_num
  have hsums : ∀ k ≤ values.length,
      (runningSums 0.0 values).toArray.getD k 0.0 = (values.take k).sum := by
    intro k hk
    rw [Array.getD_eq_getD_getElem?, List.getElem?_toArray, getElem?_runningSums hk,
      Option.getD_some]
    show (0.0 : Rat) + _ = _
    rw [hzero, zero_add]
  have hhigh := hsums _ (Nat.min_le_right (i + window / 2 + 1) values.length)
  rw [← List.take_eq_take_min] at hhigh
  rw [rollingMean, if_neg hwindow, List.getElem?_map, List.getElem?_range hi, Option.map_some,
    mean, length_around, sum_around, ← hhigh, ← hsums (i - window / 2) (by omega)]
  rfl

/-! ## Windows of neighbours -/

variable {half i : Nat}

/-- The values that lie around a position and around the next one. -/
def shared (half i : Nat) (values : List Rat) : List Rat :=
  (values.take (i + half + 1)).drop (i + 1 - half)

theorem shared_ne_nil (hhalf : 0 < half) (hi : i + 1 < values.length) :
    shared half i values ≠ [] := by
  rw [← List.length_pos_iff, shared, List.length_drop, List.length_take]
  omega

theorem around_sublist (half i : Nat) (values : List Rat) :
    (around half i values).Sublist values :=
  (List.drop_sublist _ _).trans (List.take_sublist _ _)

/-- Around a position there is one value more in front, unless the window is cut at the start. -/
theorem around_cases (half : Nat) (hi : i < values.length) :
    (i < half ∧ around half i values = shared half i values) ∨
      half ≤ i ∧ ∃ x, around half i values = x :: shared half i values := by
  rcases Nat.lt_or_ge i half with hlt | hle
  · refine Or.inl ⟨hlt, ?_⟩
    rw [around, shared, Nat.sub_eq_zero_of_le (Nat.le_of_lt hlt), Nat.sub_eq_zero_of_le hlt]
  · have hin : i - half < (values.take (i + half + 1)).length := by
      rw [List.length_take]
      omega
    refine Or.inr ⟨hle, (values.take (i + half + 1))[i - half], ?_⟩
    rw [around, shared, List.drop_eq_getElem_cons hin, Nat.sub_add_comm hle]

/-- Around the next position there is one value more at the end, unless the window is cut there. -/
theorem around_succ_cases (half i : Nat) (values : List Rat) :
    (values.length ≤ i + half + 1 ∧ around half (i + 1) values = shared half i values) ∨
      i + half + 1 < values.length ∧
        ∃ x, around half (i + 1) values = shared half i values ++ [x] := by
  have hnext : i + 1 + half + 1 = i + half + 1 + 1 := by omega
  rcases Nat.lt_or_ge (i + half + 1) values.length with hlt | hle
  · refine Or.inr ⟨hlt, values[i + half + 1], ?_⟩
    have hin : i + 1 - half ≤ (values.take (i + half + 1)).length := by
      rw [List.length_take]
      omega
    rw [around, shared, hnext, List.take_succ_eq_append_getElem hlt,
      List.drop_append_of_le_length hin]
  · refine Or.inl ⟨hle, ?_⟩
    rw [around, shared, hnext, List.take_of_length_le hle, List.take_of_length_le (by omega)]

/-! ## Values that rise -/

section Rising

variable (hrising : values.Pairwise fun a b => a < b)
include hrising

/-- The value that only the first of two windows has moves its mean down. -/
theorem mean_around_le (hhalf : 0 < half) (hi : i + 1 < values.length) :
    mean (around half i values) ≤ mean (shared half i values) ∧
      (half ≤ i → mean (around half i values) < mean (shared half i values)) := by
  rcases around_cases half (Nat.lt_of_succ_lt hi) with ⟨hlt, heq⟩ | ⟨-, x, heq⟩
  · rw [heq]
    exact ⟨le_refl _, fun hle => absurd hlt (Nat.not_lt.2 hle)⟩
  · have hpart := hrising.sublist (around_sublist half i values)
    rw [heq] at hpart ⊢
    have hne := shared_ne_nil hhalf hi
    have hlt := (mean_cons_lt_iff hne).2 (lt_mean hne (List.pairwise_cons.1 hpart).1)
    exact ⟨le_of_lt hlt, fun _ => hlt⟩

/-- The value that only the second one has moves its mean up. -/
theorem le_mean_around (hhalf : 0 < half) (hi : i + 1 < values.length) :
    mean (shared half i values) ≤ mean (around half (i + 1) values) ∧
      (i + half + 1 < values.length →
        mean (shared half i values) < mean (around half (i + 1) values)) := by
  rcases around_succ_cases half i values with ⟨hle, heq⟩ | ⟨-, x, heq⟩
  · rw [heq]
    exact ⟨le_refl _, fun hlt => absurd hle (Nat.not_le.2 hlt)⟩
  · have hpart := hrising.sublist (around_sublist half (i + 1) values)
    rw [heq] at hpart ⊢
    have hne := shared_ne_nil hhalf hi
    have hall : ∀ y ∈ shared half i values, y < x := fun y hy =>
      (List.pairwise_append.1 hpart).2.2 y hy x List.mem_cons_self
    rw [mean_concat]
    have hlt := (lt_mean_cons_iff hne).2 (mean_lt hne hall)
    exact ⟨le_of_lt hlt, fun _ => hlt⟩

/-- Of as many values as a window holds no window is cut at both ends; so the means rise. -/
theorem mean_around_lt (hhalf : 0 < half) (hlength : 2 * half < values.length)
    (hi : i + 1 < values.length) :
    mean (around half i values) < mean (around half (i + 1) values) := by
  obtain ⟨hle, hlt⟩ := mean_around_le hrising hhalf hi
  obtain ⟨hle', hlt'⟩ := le_mean_around hrising hhalf hi
  -- a window that is cut at the start gains a value at its end
  rcases Nat.lt_or_ge i half with hstart | hstart
  · exact lt_of_le_of_lt hle (hlt' (by omega))
  · exact lt_of_lt_of_le (hlt hstart) hle'

end Rising

/-! ## Values that do not rise -/

theorem mean_around_ge (hfalling : values.Pairwise fun a b => b ≤ a) (hhalf : 0 < half)
    (hi : i + 1 < values.length) :
    mean (around half (i + 1) values) ≤ mean (around half i values) := by
  have hne := shared_ne_nil hhalf hi
  have hfirst : mean (shared half i values) ≤ mean (around half i values) := by
    rcases around_cases half (Nat.lt_of_succ_lt hi) with ⟨-, heq⟩ | ⟨-, x, heq⟩
    · exact le_of_eq (congrArg mean heq.symm)
    · have hpart := hfalling.sublist (around_sublist half i values)
      rw [heq] at hpart ⊢
      rw [← not_lt, mean_cons_lt_iff hne, not_lt]
      exact mean_le hne (List.pairwise_cons.1 hpart).1
  have hsecond : mean (around half (i + 1) values) ≤ mean (shared half i values) := by
    rcases around_succ_cases half i values with ⟨-, heq⟩ | ⟨-, x, heq⟩
    · exact le_of_eq (congrArg mean heq)
    · have hpart := hfalling.sublist (around_sublist half (i + 1) values)
      rw [heq] at hpart ⊢
      rw [mean_concat, ← not_lt, lt_mean_cons_iff hne, not_lt]
      exact le_mean hne fun y hy =>
        (List.pairwise_append.1 hpart).2.2 y hy x List.mem_cons_self
  exact le_trans hsecond hfirst

/-! ## Smoothed values -/

/-- What holds of the means of neighbours holds of all smoothed values, in order. -/
theorem pairwise_rollingMean {R : Rat → Rat → Prop} [Trans R R R] {window : Nat}
    (hwindow : window ≠ 0)
    (h : ∀ i, i + 1 < values.length →
      R (mean (around (window / 2) i values)) (mean (around (window / 2) (i + 1) values))) :
    (rollingMean window values).Pairwise R := by
  -- an order is transitive, so neighbours are enough
  rw [← List.isChain_iff_pairwise, List.isChain_iff_getElem]
  intro i hi
  rw [length_rollingMean] at hi
  obtain ⟨_, hhere⟩ := List.getElem?_eq_some_iff.1
    (getElem?_rollingMean hwindow (Nat.lt_of_succ_lt hi))
  obtain ⟨_, hnext⟩ := List.getElem?_eq_some_iff.1 (getElem?_rollingMean hwindow hi)
  rw [hhere, hnext]
  exact h i hi

/-- Smoothing keeps values rising, if there are as many as a window holds. -/
theorem pairwise_lt_rollingMean {window : Nat} (hwindow : 2 ≤ window)
    (hlength : 2 * (window / 2) < values.length) (hrising : values.Pairwise fun a b => a < b) :
    (rollingMean window values).Pairwise fun a b => a < b :=
  pairwise_rollingMean (by omega) fun _ hi => mean_around_lt hrising (by omega) hlength hi

/-- Smoothing does not make values rise that do not. -/
theorem pairwise_ge_rollingMean {window : Nat} (hwindow : 2 ≤ window)
    (hfalling : values.Pairwise fun a b => b ≤ a) :
    (rollingMean window values).Pairwise fun a b => b ≤ a :=
  pairwise_rollingMean (by omega) fun _ hi => mean_around_ge hfalling (by omega) hi

end Telematics.Series
