import Telematics.Proofs.ClimbPositions
import Telematics.Proofs.FloatOrder

/-!
# Guarded smoothing and climbs

The mean of a window is read off the running sums by position, and the climbs of smoothed levels are
found by two loops over positions inside a third one. Every position is inside its list, so the
guarded loops come to the same means (`rollingMean_eq`) and the same climbs (`risingFrom_eq`) as the
plain walks; where two levels cannot be compared the outer loop does not move on, and neither has a
result.
-/

set_option autoImplicit false

namespace Telematics.Guarded

/-! ## Means -/

section Means

variable {α : Type} [Level α]

/-- Running sums, each the last one so far and the next value. -/
def runningSums (sums : List α) : List α → Option (List α)
  | [] => some sums
  | x :: xs => do
    let i ← less sums.length 1
    let last ← sums[i]?
    runningSums (sums ++ [last + x]) xs

/-- The mean of the values around each value, so many in all. -/
def rollingMean (window : Nat) (values : List α) : Option (List α) :=
  if window = 0 then some values
  else do
    let half := window / 2
    let sums ← runningSums [0.0] values
    collect (fun i => do
      let low := i - half
      let high := min (i + half + 1) values.length
      let upper ← sums[high]?
      let lower ← sums[low]?
      let count ← less high low
      return some ((upper - lower) / Level.ofCount count)) (List.range values.length)

theorem runningSums_eq (sums : List α) (sum : α) (xs : List α) :
    runningSums (sums ++ [sum]) xs = some (sums ++ Series.runningSums sum xs) := by
  induction xs generalizing sums sum with
  | nil => rfl
  | cons x xs ih =>
      have hmore := ih (sums ++ [sum]) (sum + x)
      rw [List.append_assoc sums, List.singleton_append] at hmore
      rw [runningSums, less_eq (by simp), Option.bind_eq_bind, Option.bind_some]
      simpa [Series.runningSums] using hmore

theorem rollingMean_eq (window : Nat) (values : List α) :
    rollingMean window values = some (Series.rollingMean window values) := by
  rw [rollingMean, Series.rollingMean]
  split
  · rfl
  · have hsums : runningSums [(0.0 : α)] values = some (Series.runningSums 0.0 values) :=
      runningSums_eq [] 0.0 values
    have hlength := Series.length_runningSums (0.0 : α) values
    rw [hsums, Option.bind_eq_bind, Option.bind_some]
    simp only
    rw [← List.filterMap_eq_map]
    apply collect_eq
    intro i hi
    rw [List.mem_range] at hi
    have hhigh : min (i + window / 2 + 1) values.length <
        (Series.runningSums (0.0 : α) values).length := by omega
    have hlow : i - window / 2 < (Series.runningSums (0.0 : α) values).length := by omega
    simp only [List.getElem?_eq_getElem hhigh, List.getElem?_eq_getElem hlow,
      less_eq (show i - window / 2 ≤ min (i + window / 2 + 1) values.length by omega),
      Option.bind_eq_bind, Option.bind_some, Option.pure_def, Function.comp,
      Array.getD_eq_getD_getElem?, List.getElem?_toArray, Option.getD_some]

end Means

/-! ## Climbs -/

open Rise (sinks grows)

/-- Moves on from a position as long as the next value may follow the value there. -/
def moveWhile (follows : Float → Float → Bool) (values : List Float) (i : Nat) : Option Nat :=
  if _hnext : i + 1 < values.length then do
    let next ← values[i + 1]?
    let here ← values[i]?
    if follows here next then moveWhile follows values (i + 1) else return i
  else return i
termination_by values.length - i

/-- The foot and the top of the next climb: down as long as the values sink, then up as long as they
rise. -/
def turn (values : List Float) (i : Nat) : Option (Nat × Nat) := do
  let foot ← moveWhile sinks values i
  let top ← moveWhile grows values foot
  return (foot, top)

/-- The positions of the foot and the top of every climb from a position on. A turn that gets
nowhere would be repeated for ever. -/
def risingFrom (values : List Float) (i : Nat) : Option (List (Nat × Nat)) :=
  if _hnext : i + 1 < values.length then
    match turn values i with
    | none => none
    | some (foot, top) =>
      if _hon : i < top then
        (risingFrom values top).map fun more => if foot < top then (foot, top) :: more else more
      else none
  else some []
termination_by values.length - i

variable {values rest : List Float} {here next : Float} {i : Nat}

theorem moveWhile_of_last (follows : Float → Float → Bool) (h : values.drop i = [here]) :
    moveWhile follows values i = some i := by
  have hlength := congrArg List.length h
  rw [List.length_drop, List.length_singleton] at hlength
  rw [moveWhile, dif_neg (by omega)]
  rfl

theorem moveWhile_cons (follows : Float → Float → Bool) (h : values.drop i = here :: next :: rest) :
    moveWhile follows values i =
      if follows here next then moveWhile follows values (i + 1) else some i := by
  obtain ⟨hhere, hdrop⟩ := getElem?_of_drop h
  obtain ⟨hnext, -⟩ := getElem?_of_drop hdrop
  rw [moveWhile, dif_pos (List.getElem?_eq_some_iff.1 hnext).1, hnext, hhere]
  rfl

theorem moveWhile_of_follows {follows : Float → Float → Bool}
    (h : values.drop i = here :: next :: rest) (hnext : follows here next = true) :
    moveWhile follows values i = moveWhile follows values (i + 1) := by
  rw [moveWhile_cons follows h, if_pos hnext]

theorem moveWhile_of_not_follows {follows : Float → Float → Bool}
    (h : values.drop i = here :: next :: rest) (hnext : ¬ follows here next = true) :
    moveWhile follows values i = some i := by
  rw [moveWhile_cons follows h, if_neg hnext]

/-- A move ends, and no earlier than it began. -/
theorem exists_moveWhile (follows : Float → Float → Bool) (values : List Float) (i : Nat) :
    ∃ j, moveWhile follows values i = some j ∧ i ≤ j := by
  induction hn : values.length - i generalizing i with
  | zero =>
      rw [moveWhile, dif_neg (by omega)]
      exact ⟨i, rfl, Nat.le_refl i⟩
  | succ n ih =>
      cases hdrop : values.drop i with
      | nil =>
          have hlength := List.drop_eq_nil_iff.1 hdrop
          omega
      | cons here rest =>
          cases rest with
          | nil => exact ⟨i, moveWhile_of_last follows hdrop, Nat.le_refl i⟩
          | cons next rest =>
              rw [moveWhile_cons follows hdrop]
              split
              · obtain ⟨j, hj, hle⟩ := ih (i + 1) (by omega)
                exact ⟨j, hj, Nat.le_of_succ_le hle⟩
              · exact ⟨i, rfl, Nat.le_refl i⟩

theorem turn_eq {foot top : Nat} (hfoot : moveWhile sinks values i = some foot)
    (htop : moveWhile grows values foot = some top) : turn values i = some (foot, top) := by
  rw [turn, hfoot, Option.bind_eq_bind, Option.bind_some, htop]
  rfl

/-- A turn ends, and no earlier than it began. -/
theorem exists_turn (values : List Float) (i : Nat) :
    ∃ foot top, turn values i = some (foot, top) ∧ i ≤ foot ∧ foot ≤ top := by
  obtain ⟨foot, hfoot, hle⟩ := exists_moveWhile sinks values i
  obtain ⟨top, htop, hle'⟩ := exists_moveWhile grows values foot
  exact ⟨foot, top, turn_eq hfoot htop, hle, hle'⟩

theorem risingFrom_of_turn {foot top : Nat} (h : turn values i = some (foot, top))
    (hnext : values[i + 1]? = some next) :
    risingFrom values i = if i < top then (risingFrom values top).map fun more =>
      if foot < top then (foot, top) :: more else more else none := by
  rw [risingFrom, dif_pos (List.getElem?_eq_some_iff.1 hnext).1, h]
  rfl

/-- A step down changes nothing about the climbs. -/
theorem risingFrom_of_sinks (h : values.drop i = here :: next :: rest) (hle : next ≤ here) :
    risingFrom values i = risingFrom values (i + 1) := by
  obtain ⟨-, hdrop⟩ := getElem?_of_drop h
  obtain ⟨hnext, hdrop'⟩ := getElem?_of_drop hdrop
  obtain ⟨foot, top, hturn, hfoot, htop⟩ := exists_turn values (i + 1)
  have hsame : turn values i = turn values (i + 1) := by
    rw [turn, turn, moveWhile_of_follows h (decide_eq_true hle)]
  rw [risingFrom_of_turn (hsame.trans hturn) hnext, if_pos (by omega)]
  by_cases hon : i + 1 < top
  · cases rest with
    | nil =>
        rw [turn_eq (moveWhile_of_last sinks hdrop) (moveWhile_of_last grows hdrop)] at hturn
        obtain ⟨-, rfl⟩ := Prod.mk.inj (Option.some.inj hturn)
        exact absurd hon (Nat.lt_irrefl _)
    | cons after rest =>
        rw [risingFrom_of_turn hturn (getElem?_of_drop hdrop').1, if_pos hon]
  · -- the turn gets nowhere from the next position on
    obtain rfl : top = i + 1 := by omega
    obtain rfl : foot = i + 1 := by omega
    simp

/-- A step up begins a climb that goes as far as the values rise. -/
theorem risingFrom_of_grows (h : values.drop i = here :: next :: rest) (hlt : here < next) :
    risingFrom values i = (moveWhile grows values (i + 1)).bind fun top =>
      (risingFrom values top).map fun more => (i, top) :: more := by
  obtain ⟨-, hdrop⟩ := getElem?_of_drop h
  obtain ⟨hnext, -⟩ := getElem?_of_drop hdrop
  have hsinks : moveWhile sinks values i = some i := moveWhile_of_not_follows h fun hle =>
    FloatOrder.not_lt_of_le (of_decide_eq_true hle) hlt
  have hgrows : moveWhile grows values i = moveWhile grows values (i + 1) :=
    moveWhile_of_follows h (decide_eq_true hlt)
  obtain ⟨top, htop, hon⟩ := exists_moveWhile grows values (i + 1)
  have hon : i < top := hon
  rw [risingFrom_of_turn (turn_eq hsinks (hgrows.trans htop)) hnext, htop]
  simp only [hon, if_true, Option.bind_some]

/-- No turn goes on where two neighbours cannot be compared. -/
theorem risingFrom_of_apart (h : values.drop i = here :: next :: rest) (hle : ¬ next ≤ here)
    (hlt : ¬ here < next) : risingFrom values i = none := by
  obtain ⟨-, hdrop⟩ := getElem?_of_drop h
  obtain ⟨hnext, -⟩ := getElem?_of_drop hdrop
  have hsinks : moveWhile sinks values i = some i :=
    moveWhile_of_not_follows h fun hs => hle (of_decide_eq_true hs)
  have hgrows : moveWhile grows values i = some i :=
    moveWhile_of_not_follows h fun hs => hlt (of_decide_eq_true hs)
  rw [risingFrom_of_turn (turn_eq hsinks hgrows) hnext, if_neg (Nat.lt_irrefl i)]

/-- The loops from a position on are the walk from there, be it outside a climb or in one that began
at position `t`. -/
theorem risingFrom_eq_walk (h : values.drop i = here :: rest) :
    risingFrom values i = Rise.walk i here none rest ∧
      ∀ t, ((moveWhile grows values i).bind fun top =>
        (risingFrom values top).map fun more => (t, top) :: more) =
          Rise.walk i here (some t) rest := by
  -- the walk goes on by one value, the loops by a whole turn: a step down is lost in the next turn,
  -- and a step up begins or goes on with a climb, so both states are needed
  induction rest generalizing i here with
  | nil =>
      have hlength := congrArg List.length h
      rw [List.length_drop, List.length_singleton] at hlength
      have hend : risingFrom values i = some [] := by
        rw [risingFrom, dif_neg (by omega)]
      refine ⟨hend, fun t => ?_⟩
      rw [moveWhile_of_last grows h, Option.bind_some, hend]
      rfl
  | cons next rest ih =>
      obtain ⟨-, hdrop⟩ := getElem?_of_drop h
      obtain ⟨hwalk, hclimb⟩ := ih hdrop
      by_cases hle : next ≤ here
      · have hstay : moveWhile grows values i = some i := moveWhile_of_not_follows h fun hs =>
          FloatOrder.not_lt_of_le hle (of_decide_eq_true hs)
        rw [hstay, risingFrom_of_sinks h hle, hwalk, Rise.walk, if_pos hle]
        refine ⟨?_, fun t => ?_⟩
        · simp [Rise.finished]
        · rw [Option.bind_some, risingFrom_of_sinks h hle, hwalk, Rise.walk, if_pos hle]
          rfl
      · by_cases hlt : here < next
        · have hgo : moveWhile grows values i = moveWhile grows values (i + 1) :=
            moveWhile_of_follows h (decide_eq_true hlt)
          rw [hgo, risingFrom_of_grows h hlt, hclimb, Rise.walk, if_neg hle, if_pos hlt]
          refine ⟨rfl, fun t => ?_⟩
          rw [hclimb, Rise.walk, if_neg hle, if_pos hlt]
          rfl
        · have hstay : moveWhile grows values i = some i :=
            moveWhile_of_not_follows h fun hs => hlt (of_decide_eq_true hs)
          rw [hstay, risingFrom_of_apart h hle hlt, Rise.walk, if_neg hle, if_neg hlt]
          refine ⟨rfl, fun t => ?_⟩
          rw [Option.bind_some, risingFrom_of_apart h hle hlt, Rise.walk, if_neg hle, if_neg hlt]
          rfl

theorem risingFrom_eq (values : List Float) : risingFrom values 0 = rises values := by
  cases values with
  | nil =>
      rw [risingFrom, dif_neg (by simp)]
      rfl
  | cons here rest => exact (risingFrom_eq_walk rfl).1

end Telematics.Guarded
