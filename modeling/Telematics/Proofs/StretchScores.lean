import Mathlib.Algebra.Order.Ring.Nat
import Telematics.Detection.Cusum

/-!
# Scores by stretches of windows

`Cusum.scores` walks over the counts of successive windows with the score in hand. Here the score
after a window is compared with a threshold without a walk. `gain` is what a stretch of windows adds
to a score that is not held up at zero, and `lt_iff_of_getElem?_scores` says that the score is above
a threshold exactly when one of the stretches that end with the window gains more than it.

Sums of counts below `2 ^ 50` are far from where a score loses digits, so every step is exact
(`step_eq`); a score cannot outgrow twice the sum of the counts.
-/

set_option autoImplicit false

namespace Telematics.Cusum

/-- What a stretch of windows adds to a score, in halves: twice its counts, less what each of its
windows loses. -/
def gain (counts : List Nat) : Int := 2 * (counts.sum : Int) - (baseline + drift) * counts.length

@[simp] theorem gain_nil : gain [] = 0 := rfl

theorem gain_cons (count : Nat) (counts : List Nat) :
    gain (count :: counts) = 2 * (count : Int) - (baseline + drift) + gain counts := by
  simp only [gain, List.sum_cons, List.length_cons, baseline, drift]
  omega

/-- Larger counts gain more. -/
theorem gain_map_le {α : Type} {f g : α → Nat} (h : ∀ x, f x ≤ g x) (xs : List α) :
    gain (xs.map f) ≤ gain (xs.map g) := by
  induction xs with
  | nil => exact Int.le_refl _
  | cons x xs ih =>
      have hx := h x
      simp only [List.map_cons, gain_cons]
      omega

/-- Where doubled sums fit the digits of a score, holding a number does not change it. -/
theorem hold_eq {n : Int} (h : n.natAbs < Number.twoTo precision) : hold n = n :=
  Number.roundBitsInt_of_lt h

/-- A step that stays below the precision is exact: it adds the gain of the window and stops at
zero. -/
theorem step_eq {score : Int} {count : Nat} (hscore : 0 ≤ score)
    (hfits : score + 2 * (count : Int) < Number.twoTo precision) :
    step score count = max 0 (score + (2 * (count : Int) - (baseline + drift))) := by
  -- each of the four numbers that are held lies between -3 and the bound
  have hpower : Number.twoTo precision = 9007199254740992 := rfl
  have hdouble : hold (2 * (count : Int)) = 2 * (count : Int) := hold_eq (by omega)
  have hsum : hold (score + 2 * (count : Int)) = score + 2 * (count : Int) := hold_eq (by omega)
  have hbase : hold (score + 2 * (count : Int) - baseline) =
      score + 2 * (count : Int) - baseline := hold_eq (by simp only [baseline]; omega)
  have hdrift : hold (score + 2 * (count : Int) - baseline - drift) =
      score + 2 * (count : Int) - baseline - drift :=
    hold_eq (by simp only [baseline, drift]; omega)
  rw [step, hdouble, hsum, hbase, hdrift]
  congr 1
  omega

/-- There is a score for each window. -/
@[simp] theorem length_scores (score : Int) (counts : List Nat) :
    (scores score counts).length = counts.length := by
  induction counts generalizing score with
  | nil => rfl
  | cons count counts ih => simp [scores, ih]

/-- What a stretch gains after a step adds up with the score before the step, or with nothing where
the score was held up at zero. -/
theorem lt_step_add_iff {bound score g : Int} {count : Nat} (hscore : 0 ≤ score)
    (hfits : score + 2 * (count : Int) < Number.twoTo precision) :
    bound < step score count + g ↔ bound < score + gain [count] + g ∨ bound < g := by
  have hone : gain [count] = 2 * (count : Int) - (baseline + drift) := by simp [gain_cons]
  rw [step_eq hscore hfits, hone]
  omega

/-- From a score on, the score after a window is above a bound exactly when that score and all
windows so far together exceed it, or a stretch that ends with the window does on its own. -/
theorem lt_iff_of_getElem?_scores {bound score : Int} {counts : List Nat} {k : Nat} {s : Int}
    (hbound : 0 ≤ bound) (hscore : 0 ≤ score)
    (hfits : score + 2 * (counts.sum : Int) < Number.twoTo precision)
    (hs : (scores score counts)[k]? = some s) :
    bound < s ↔ bound < score + gain (counts.take (k + 1)) ∨
      ∃ j ≤ k, bound < gain ((counts.take (k + 1)).drop j) := by
  -- the walk goes on from any score, so the score is part of the induction
  induction counts generalizing score k with
  | nil => simp [scores] at hs
  | cons count counts ih =>
      rw [List.sum_cons] at hfits
      have hcount : score + 2 * (count : Int) < Number.twoTo precision := by omega
      rw [scores] at hs
      cases k with
      | zero =>
          obtain rfl : step score count = s := by simpa using hs
          rw [← Int.add_zero (step score count), lt_step_add_iff hscore hcount,
            List.take_succ_cons, List.take_zero]
          constructor
          · rintro (h | h)
            · exact Or.inl (by omega)
            · omega
          · rintro (h | ⟨j, hj, h⟩)
            · exact Or.inl (by omega)
            · obtain rfl : j = 0 := by omega
              rw [List.drop_zero] at h
              exact Or.inl (by omega)
      | succ k =>
          have hnext : 0 ≤ step score count := by
            rw [step_eq hscore hcount]
            exact Int.le_max_left _ _
          have hlater : step score count + 2 * (counts.sum : Int) < Number.twoTo precision := by
            rw [step_eq hscore hcount]
            simp only [baseline, drift]
            omega
          have hall : gain (count :: counts.take (k + 1)) =
              gain [count] + gain (counts.take (k + 1)) := by
            simp [gain_cons]
          rw [ih hnext hlater (by simpa using hs), lt_step_add_iff hscore hcount,
            List.take_succ_cons, hall, ← Int.add_assoc]
          constructor
          · rintro ((h | h) | ⟨j, hj, h⟩)
            · exact Or.inl h
            · -- the score was held up at zero, so the stretch from the next window on decides
              exact Or.inr ⟨1, by omega, by simpa using h⟩
            · exact Or.inr ⟨j + 1, by omega, by simpa using h⟩
          · rintro (h | ⟨j, hj, h⟩)
            · exact Or.inl (Or.inl h)
            · cases j with
              | zero =>
                  rw [List.drop_zero, hall] at h
                  exact Or.inl (Or.inl (by omega))
              | succ j => exact Or.inr ⟨j, by omega, by simpa using h⟩

/-- A window is active exactly when one of the stretches that end with it gains more than the
threshold. -/
theorem getElem?_active_eq_true_iff {counts : List Nat} {k : Nat}
    (hfits : 2 * (counts.sum : Int) < Number.twoTo precision) :
    (active counts)[k]? = some true ↔
      k < counts.length ∧ ∃ j ≤ k, threshold < gain ((counts.take (k + 1)).drop j) := by
  rw [active, List.getElem?_map]
  by_cases hk : k < counts.length
  · obtain ⟨s, hs⟩ : ∃ s, (scores 0 counts)[k]? = some s :=
      ⟨_, List.getElem?_eq_getElem (by simpa using hk)⟩
    have hlt := lt_iff_of_getElem?_scores (show 0 ≤ threshold by decide) (Int.le_refl 0)
      (by omega) hs
    rw [hs, Option.map_some, Option.some.injEq, decide_eq_true_iff, hlt]
    constructor
    · rintro (h | h)
      · exact ⟨hk, 0, Nat.zero_le k, by simpa using h⟩
      · exact ⟨hk, h⟩
    · rintro ⟨-, h⟩
      exact Or.inr h
  · rw [List.getElem?_eq_none (by simpa using hk)]
    simp [hk]

end Telematics.Cusum
