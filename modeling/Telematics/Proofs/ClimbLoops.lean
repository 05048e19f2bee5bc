import Mathlib.Computability.StateTransition
import Mathlib.Data.List.Sort
import Telematics.Proofs.ClimbPositions
import Telematics.Proofs.GuardedClimbs

/-!
# Loops over climbs

Climbs are found by two loops over positions inside a third one: down as long as the next value is
not larger, up as long as it is, and both again as long as a value is left. The third loop does not
move itself. `step` takes one step of them, and `Loops.run` is what they come to, if they come to an
end.

Where two neighbours cannot be compared no state at the position of the first has a step that leaves
it (`position_of_step`), so the loops go on there for ever. Elsewhere each position is left after a
few steps. So the loops come to what the walk of `rises` comes to, and to nothing where that has no
answer (`run_eq`), and so they do with guarded look-ups (`run_eq_risingFrom`). With floating-point
values they end exactly when neighbours compare, and then they list the maximal rises from the left
to the right (`run_exact`).
-/

set_option autoImplicit false

namespace Telematics

namespace Loops

open Rise (sinks grows)

/-! ## The next value -/

section Next

variable {α : Type} {values rest : List α} {here next : α} {i : Nat}

/-- There is a next value, and it may follow the value at a position. -/
def goesOn (follows : α → α → Bool) (values : List α) (i : Nat) : Bool :=
  match values[i]?, values[i + 1]? with
  | some here, some next => follows here next
  | _, _ => false

theorem goesOn_of_last (follows : α → α → Bool) (h : values.drop i = [here]) :
    goesOn follows values i = false := by
  obtain ⟨hhere, htail⟩ := Guarded.getElem?_of_drop h
  have hnext : values[i + 1]? = none := by
    rw [List.getElem?_eq_none_iff, ← List.drop_eq_nil_iff]
    exact htail
  rw [goesOn, hhere, hnext]

theorem goesOn_cons (follows : α → α → Bool) (h : values.drop i = here :: next :: rest) :
    goesOn follows values i = follows here next := by
  obtain ⟨hhere, htail⟩ := Guarded.getElem?_of_drop h
  obtain ⟨hnext, -⟩ := Guarded.getElem?_of_drop htail
  rw [goesOn, hhere, hnext]

theorem lt_length_of_cons (h : values.drop i = here :: next :: rest) :
    i + 1 < values.length := by
  obtain ⟨-, htail⟩ := Guarded.getElem?_of_drop h
  obtain ⟨hnext, -⟩ := Guarded.getElem?_of_drop htail
  exact (List.getElem?_eq_some_iff.1 hnext).1

end Next

/-! ## The loops -/

/-- The loop that a step belongs to: the outer one, the one down, or the one up from a foot. -/
inductive Phase where
  | outer
  | down
  | up (foot : Nat)

/-- Where the loops are. -/
structure State where
  phase : Phase
  position : Nat
  /-- The climbs that are found so far. -/
  climbs : List (Nat × Nat)

variable {α : Type} [Level α] {values rest : List α} {here next : α} {i : Nat}

/-- One step of the loops, if they are not over. -/
def step (values : List α) : State → Option State
  | ⟨.outer, i, found⟩ => if i + 1 < values.length then some ⟨.down, i, found⟩ else none
  | ⟨.down, i, found⟩ =>
    if goesOn sinks values i then some ⟨.down, i + 1, found⟩ else some ⟨.up i, i, found⟩
  | ⟨.up foot, i, found⟩ =>
    if goesOn grows values i then some ⟨.up foot, i + 1, found⟩
    else some ⟨.outer, i, if foot < i then found ++ [(foot, i)] else found⟩

/-- The climbs that the loops come to from a state on. -/
def climbsFrom (values : List α) (s : State) : Part (List (Nat × Nat)) :=
  (StateTransition.eval (step values) s).map State.climbs

/-- The climbs that the loops come to. -/
def run (values : List α) : Part (List (Nat × Nat)) := climbsFrom values ⟨.outer, 0, []⟩

/-! ## What a step leads to -/

variable {s s' : State} {found : List (Nat × Nat)} {foot : Nat}

theorem climbsFrom_of_step (h : step values s = some s') :
    climbsFrom values s = climbsFrom values s' :=
  congrArg (Part.map State.climbs)
    (StateTransition.reaches_eval (Relation.ReflTransGen.single h))

theorem climbsFrom_of_over (h : step values s = none) :
    climbsFrom values s = Part.some s.climbs := by
  have hend : s ∈ StateTransition.eval (step values) s :=
    StateTransition.mem_eval.2 ⟨Relation.ReflTransGen.refl, h⟩
  rw [climbsFrom, Part.eq_some_iff.2 hend, Part.map_some]

section Forever

variable {kind : State → Prop} (h : ∀ s, kind s → ∃ s', step values s = some s' ∧ kind s')
include h

/-- States that only step to states of the same kind only reach such states. -/
theorem kind_of_reaches (hs : kind s) (hreach : StateTransition.Reaches (step values) s s') :
    kind s' := by
  -- by induction on the steps taken so far
  induction hreach with
  | refl => exact hs
  | @tail u v _ hstep ih =>
      obtain ⟨v', hv', hkind⟩ := h u ih
      obtain rfl : v = v' := Option.mem_unique hstep hv'
      exact hkind

/-- Nothing is come to from them. -/
theorem climbsFrom_of_forever (hs : kind s) : climbsFrom values s = Part.none := by
  have hnone : StateTransition.eval (step values) s = Part.none := by
    rw [Part.eq_none_iff]
    intro last hlast
    obtain ⟨hreach, hover⟩ := StateTransition.mem_eval.1 hlast
    obtain ⟨s', hstep, -⟩ := h last (kind_of_reaches h hs hreach)
    exact absurd (hover.symm.trans hstep) (by simp)
  rw [climbsFrom, hnone, Part.map_none]

end Forever

/-! ## Each state of the loops -/

/-- At the last value the outer loop is over. -/
theorem climbsFrom_outer_last (h : values.drop i = [here]) :
    climbsFrom values ⟨.outer, i, found⟩ = Part.some found := by
  have hlength := congrArg List.length h
  rw [List.length_drop, List.length_singleton] at hlength
  exact climbsFrom_of_over (if_neg (by omega))

/-- Before the last value it begins a turn. -/
theorem climbsFrom_outer_cons (h : values.drop i = here :: next :: rest) :
    climbsFrom values ⟨.outer, i, found⟩ = climbsFrom values ⟨.down, i, found⟩ :=
  climbsFrom_of_step (if_pos (lt_length_of_cons h))

/-- The loop down goes on. -/
theorem climbsFrom_down_of_le (h : values.drop i = here :: next :: rest) (hle : next ≤ here) :
    climbsFrom values ⟨.down, i, found⟩ = climbsFrom values ⟨.down, i + 1, found⟩ := by
  apply climbsFrom_of_step
  rw [step, if_pos ((goesOn_cons _ h).trans (decide_eq_true hle))]

/-- The loop down is over, and its position is the foot of the loop up. -/
theorem climbsFrom_down_of_not (h : goesOn sinks values i = false) :
    climbsFrom values ⟨.down, i, found⟩ = climbsFrom values ⟨.up i, i, found⟩ := by
  apply climbsFrom_of_step
  rw [step, h, if_neg Bool.false_ne_true]

/-- The loop up goes on. -/
theorem climbsFrom_up_of_lt (h : values.drop i = here :: next :: rest) (hlt : here < next) :
    climbsFrom values ⟨.up foot, i, found⟩ = climbsFrom values ⟨.up foot, i + 1, found⟩ := by
  apply climbsFrom_of_step
  rw [step, if_pos ((goesOn_cons _ h).trans (decide_eq_true hlt))]

/-- The loop up is over. If it moved at all, it has found a climb. -/
theorem climbsFrom_up_of_not (h : goesOn grows values i = false) :
    climbsFrom values ⟨.up foot, i, found⟩ =
      climbsFrom values ⟨.outer, i, if foot < i then found ++ [(foot, i)] else found⟩ := by
  apply climbsFrom_of_step
  rw [step, h, if_neg Bool.false_ne_true]

/-- Where two neighbours cannot be compared, every step stays at the position of the first. -/
theorem position_of_step (h : values.drop i = here :: next :: rest) (hle : ¬ next ≤ here)
    (hlt : ¬ here < next) (hs : s.position = i) :
    ∃ s', step values s = some s' ∧ s'.position = i := by
  obtain ⟨phase, _, found⟩ := s
  obtain rfl := hs
  cases phase with
  | outer => exact ⟨_, if_pos (lt_length_of_cons h), rfl⟩
  | down =>
      have hover := (goesOn_cons sinks h).trans (decide_eq_false hle)
      exact ⟨_, if_neg (Bool.not_eq_true _ ▸ hover), rfl⟩
  | up foot =>
      have hover := (goesOn_cons grows h).trans (decide_eq_false hlt)
      exact ⟨_, if_neg (Bool.not_eq_true _ ▸ hover), rfl⟩

/-! ## The loops and the walk -/

section Order

variable (hasymm : ∀ a b : α, b ≤ a → ¬ a < b)
include hasymm

/-- The loops from a position on come to what the walk from there comes to, be it outside a climb or
in one that began before. -/
theorem climbsFrom_eq {i : Nat} (h : values.drop i = here :: rest) :
    (∀ found, climbsFrom values ⟨.down, i, found⟩ =
      Part.ofOption ((Rise.walk i here none rest).map (found ++ ·))) ∧
    ∀ foot found, foot < i → climbsFrom values ⟨.up foot, i, found⟩ =
      Part.ofOption ((Rise.walk i here (some foot) rest).map (found ++ ·)) := by
  -- by induction on what is left: the loop down is left at once where the values rise, and the loop
  -- up where they fall, so both states are needed
  induction rest generalizing i here with
  | nil =>
      have hdown := goesOn_of_last sinks h
      have hup := goesOn_of_last grows h
      refine ⟨fun found => ?_, fun foot found hfoot => ?_⟩
      · rw [climbsFrom_down_of_not hdown, climbsFrom_up_of_not hup, if_neg (Nat.lt_irrefl i),
          climbsFrom_outer_last h]
        simp [Rise.walk, Rise.finished]
      · rw [climbsFrom_up_of_not hup, if_pos hfoot, climbsFrom_outer_last h]
        simp [Rise.walk, Rise.finished]
  | cons next rest ih =>
      obtain ⟨-, htail⟩ := Guarded.getElem?_of_drop h
      obtain ⟨hwalk, hclimb⟩ := ih htail
      by_cases hle : next ≤ here
      · have hup : goesOn grows values i = false :=
          (goesOn_cons grows h).trans (decide_eq_false (hasymm here next hle))
        have hdown : ∀ found, climbsFrom values ⟨.down, i, found⟩ =
            Part.ofOption ((Rise.walk (i + 1) next none rest).map (found ++ ·)) := fun found =>
          (climbsFrom_down_of_le h hle).trans (hwalk found)
        refine ⟨fun found => ?_, fun foot found hfoot => ?_⟩
        · rw [hdown, Rise.walk, if_pos hle]
          simp [Rise.finished]
        · rw [climbsFrom_up_of_not hup, if_pos hfoot, climbsFrom_outer_cons h, hdown, Rise.walk,
            if_pos hle]
          simp [Rise.finished, Function.comp_def]
      · have hdown : goesOn sinks values i = false :=
          (goesOn_cons sinks h).trans (decide_eq_false hle)
        by_cases hlt : here < next
        · refine ⟨fun found => ?_, fun foot found hfoot => ?_⟩
          · rw [climbsFrom_down_of_not hdown, climbsFrom_up_of_lt h hlt,
              hclimb i found (Nat.lt_succ_self i), Rise.walk, if_neg hle, if_pos hlt]
            rfl
          · rw [climbsFrom_up_of_lt h hlt, hclimb foot found (Nat.lt_succ_of_lt hfoot), Rise.walk,
              if_neg hle, if_pos hlt]
            rfl
        · -- both loops are left at once, for ever
          have hstuck : ∀ s : State, s.position = i → climbsFrom values s = Part.none := fun s hs =>
            climbsFrom_of_forever (fun _ hs => position_of_step h hle hlt hs) hs
          refine ⟨fun found => ?_, fun foot found _ => ?_⟩
          · rw [hstuck _ rfl, Rise.walk, if_neg hle, if_neg hlt]
            rfl
          · rw [hstuck _ rfl, Rise.walk, if_neg hle, if_neg hlt]
            rfl

/-- The loops come to what the walk comes to. -/
theorem run_eq (values : List α) : run values = Part.ofOption (Telematics.rises values) := by
  cases values with
  | nil => exact climbsFrom_of_over rfl
  | cons here rest =>
      cases rest with
      | nil => exact climbsFrom_outer_last rfl
      | cons next rest =>
          rw [run, climbsFrom_outer_cons rfl, (climbsFrom_eq hasymm rfl).1, Telematics.rises]
          simp

end Order

end Loops

/-! ## Maximal rises -/

section Exact

variable {α : Type} [Level α] {values : List α} {i : Nat} {c : Nat × Nat}

/-- The value after a position is not larger than the one at it. -/
def StepDown (values : List α) (i : Nat) : Prop :=
  ∃ a b, values[i]? = some a ∧ values[i + 1]? = some b ∧ b ≤ a

/-- The values rise at every step from the first of two positions to the second. The list begins at
the first, or the step to it is not up; and it ends at the second, or the step from it is not up. -/
structure MaximalRise (values : List α) (c : Nat × Nat) : Prop where
  lt : c.1 < c.2
  up : ∀ k, c.1 ≤ k → k < c.2 → StepUp values k
  foot : c.1 = 0 ∨ StepDown values (c.1 - 1)
  top : c.2 + 1 = values.length ∨ StepDown values c.2

/-- Where neighbours compare, a step is down or up. -/
theorem NeighboursCompare.step (h : NeighboursCompare values) (hlt : i + 1 < values.length) :
    StepDown values i ∨ StepUp values i := by
  have hhere := List.getElem?_eq_getElem (Nat.lt_of_succ_lt hlt)
  have hnext := List.getElem?_eq_getElem hlt
  rcases List.isChain_iff_getElem.1 h i hlt with hdown | hup
  · exact Or.inl ⟨_, _, hhere, hnext, hdown⟩
  · exact Or.inr ⟨_, _, hhere, hnext, hup⟩

section Order

variable (hasymm : ∀ a b : α, b ≤ a → ¬ a < b)
include hasymm

theorem StepDown.not_stepUp (h : StepDown values i) : ¬ StepUp values i := by
  obtain ⟨a, b, ha, hb, hle⟩ := h
  rintro ⟨a', b', ha', hb', hlt⟩
  obtain rfl : a = a' := Option.some.inj (ha.symm.trans ha')
  obtain rfl : b = b' := Option.some.inj (hb.symm.trans hb')
  exact hasymm a b hle hlt

/-- Where neighbours compare, maximal rises are the climbs. -/
theorem NeighboursCompare.maximalRise_iff (h : NeighboursCompare values) :
    MaximalRise values c ↔ IsClimb values c := by
  constructor
  · intro hc
    refine ⟨hc.lt, hc.up, ?_, ?_⟩
    · intro k hk
      rcases hc.foot with hzero | hdown
      · exact absurd (hk.trans hzero) (Nat.succ_ne_zero k)
      · rw [← hk, Nat.add_sub_cancel] at hdown
        exact hdown.not_stepUp hasymm
    · rcases hc.top with hlast | hdown
      · intro hup
        exact absurd hlast (Nat.ne_of_lt hup.lt_length)
      · exact hdown.not_stepUp hasymm
  · intro hc
    have hlength := hc.lt_length
    refine ⟨hc.lt, hc.up, ?_, ?_⟩
    · rcases Nat.eq_zero_or_pos c.1 with hzero | hpos
      · exact Or.inl hzero
      · have hprev : c.1 - 1 + 1 = c.1 := Nat.sub_add_cancel hpos
        have hlt := hc.lt
        exact Or.inr ((h.step (by omega)).resolve_right (hc.foot (c.1 - 1) hprev))
    · rcases Nat.lt_or_eq_of_le (Nat.succ_le_of_lt hlength) with hlt | heq
      · exact Or.inr ((h.step hlt).resolve_right hc.top)
      · exact Or.inl heq

/-- The list of the maximal rises from the left to the right. -/
theorem rises_eq_some_iff {climbs : List (Nat × Nat)} :
    rises values = some climbs ↔ NeighboursCompare values ∧
      (∀ c, c ∈ climbs ↔ MaximalRise values c) ∧ climbs.Pairwise fun c d => c.2 < d.1 := by
  constructor
  · intro h
    have hcompare : NeighboursCompare values := by
      rw [← isSome_rises_iff, h]
      rfl
    refine ⟨hcompare, fun c => ?_, pairwise_rises hasymm h⟩
    rw [mem_rises_iff hasymm h, hcompare.maximalRise_iff hasymm]
  · rintro ⟨hcompare, hmem, hsorted⟩
    obtain ⟨found, hfound⟩ := Option.isSome_iff_exists.1 (isSome_rises_iff.2 hcompare)
    have hmemfound : ∀ c, c ∈ found ↔ MaximalRise values c := fun c => by
      rw [mem_rises_iff hasymm hfound, hcompare.maximalRise_iff hasymm]
    -- both lists are sorted by their feet
    have hfeet : ∀ {climbs : List (Nat × Nat)}, (∀ c, c ∈ climbs ↔ MaximalRise values c) →
        (climbs.Pairwise fun c d => c.2 < d.1) → climbs.Pairwise fun c d => c.1 < d.1 :=
      fun hmem hsorted => hsorted.imp_of_mem fun hc _ hlt => ((hmem _).1 hc).lt.trans hlt
    have hirrefl : Std.Irrefl fun c d : Nat × Nat => c.1 < d.1 := ⟨fun c => Nat.lt_irrefl c.1⟩
    have hantisymm : Std.Antisymm fun c d : Nat × Nat => c.1 < d.1 :=
      ⟨fun _ _ hcd hdc => absurd hdc (Nat.lt_asymm hcd)⟩
    rw [hfound, List.Pairwise.eq_of_mem_iff (hfeet hmemfound (pairwise_rises hasymm hfound))
      (hfeet hmem hsorted) fun c => (hmemfound c).trans (hmem c).symm]

end Order

end Exact

/-! ## Floating-point values -/

section Numbers

open FloatOrder

theorem FloatOrder.compares_iff {a b : Float} : b ≤ a ∨ a < b ↔ IsNumber a ∧ IsNumber b := by
  constructor
  · rintro (hle | hlt)
    · exact (isNumber_of_le hle).symm
    · exact isNumber_of_lt hlt
  · rintro ⟨ha, hb⟩
    exact le_or_lt hb ha

theorem neighboursCompare_cons_iff (here next : Float) (rest : List Float) :
    NeighboursCompare (here :: next :: rest) ↔ ∀ v ∈ here :: next :: rest, IsNumber v := by
  induction rest generalizing here next with
  | nil =>
      rw [NeighboursCompare, List.isChain_pair, compares_iff, List.forall_mem_cons,
        List.forall_mem_singleton]
  | cons after rest ih =>
      have hmore : List.IsChain (fun a b : Float => b ≤ a ∨ a < b) (next :: after :: rest) ↔
          ∀ v ∈ next :: after :: rest, IsNumber v := ih next after
      rw [NeighboursCompare, List.isChain_cons_cons, compares_iff, hmore, and_assoc,
        List.forall_mem_cons (l := next :: after :: rest)]
      exact and_congr_right fun _ => and_iff_right_of_imp fun h => h next List.mem_cons_self

/-- Neighbours compare where all values are numbers, or where there are no neighbours. -/
theorem neighboursCompare_iff_numbers {values : List Float} :
    NeighboursCompare values ↔ values.length < 2 ∨ ∀ v ∈ values, IsNumber v := by
  match values with
  | [] => exact iff_of_true List.IsChain.nil (Or.inl Nat.two_pos)
  | [v] => exact iff_of_true (List.IsChain.singleton v) (Or.inl Nat.one_lt_two)
  | here :: next :: rest =>
      rw [neighboursCompare_cons_iff]
      refine (or_iff_right ?_).symm
      rw [List.length_cons, List.length_cons]
      omega

/-- The loops come to what they come to with every look-up guarded, where a turn that gets nowhere
has no result. -/
theorem Loops.run_eq_risingFrom (values : List Float) :
    run values = Part.ofOption (Guarded.risingFrom values 0) := by
  rw [run_eq fun _ _ => not_lt_of_le, Guarded.risingFrom_eq]

/-- The loops come to an end exactly where neighbours compare, which is where all values are numbers
or there are no two of them. What they come to is what the walk finds: the maximal rises, all of
them and nothing else, each over before the next one begins. -/
theorem Loops.run_exact (values : List Float) :
    (NeighboursCompare values ↔ values.length < 2 ∨ ∀ v ∈ values, IsNumber v) ∧
      ((run values).Dom ↔ NeighboursCompare values) ∧
      run values = Part.ofOption (rises values) ∧
      ∀ climbs, climbs ∈ run values ↔ NeighboursCompare values ∧
        (∀ c, c ∈ climbs ↔ MaximalRise values c) ∧ climbs.Pairwise fun c d => c.2 < d.1 := by
  have hasymm : ∀ a b : Float, b ≤ a → ¬ a < b := fun _ _ => not_lt_of_le
  have hrun := run_eq hasymm values
  refine ⟨neighboursCompare_iff_numbers, ?_, hrun, fun climbs => ?_⟩
  · rw [hrun, Part.ofOption_dom, isSome_rises_iff]
  · rw [hrun, Part.mem_ofOption, Option.mem_def, rises_eq_some_iff hasymm]

example : rises [(5 : Float), 4, 4, 6, 8, 7, 9, 9] = some [(2, 4), (5, 6)] := by decide

end Numbers

end Telematics
