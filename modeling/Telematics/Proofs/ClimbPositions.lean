import Mathlib.Data.List.Chain
import Telematics.Proofs.GuardedSteps
import Telematics.Rise

/-!
# Where climbs lie

A climb is a maximal stretch of positions along which the values rise from each to the next
(`IsClimb`). Two climbs have no position in common (`IsClimb.lt_of_lt`), so a climb that begins
inside another one is that one (`IsClimb.eq_of_le`). The walk of `rises` finds every climb, and
nothing else, from the left to the right (`mem_rises_iff`, `pairwise_rises`). All that it needs of
the order is that no value is both above and not above another one. It has an answer exactly where
each value compares with the next one (`isSome_rises_iff`).
-/

set_option autoImplicit false

namespace Telematics

variable {α : Type} [Level α] {values : List α} {c d : Nat × Nat}

/-- The value after a position is larger than the one at it. -/
def StepUp (values : List α) (i : Nat) : Prop :=
  ∃ a b, values[i]? = some a ∧ values[i + 1]? = some b ∧ a < b

theorem StepUp.lt_length {i : Nat} (h : StepUp values i) : i + 1 < values.length := by
  obtain ⟨-, b, -, hb, -⟩ := h
  exact (List.getElem?_eq_some_iff.1 hb).1

/-- The values rise at every step from the first of two positions to the second, and neither before
the first nor after the second. -/
structure IsClimb (values : List α) (c : Nat × Nat) : Prop where
  lt : c.1 < c.2
  up : ∀ k, c.1 ≤ k → k < c.2 → StepUp values k
  foot : ∀ k, k + 1 = c.1 → ¬ StepUp values k
  top : ¬ StepUp values c.2

namespace IsClimb

theorem stepUp_foot (h : IsClimb values c) : StepUp values c.1 := h.up c.1 (Nat.le_refl _) h.lt

/-- A climb ends at a position of a value. -/
theorem lt_length (h : IsClimb values c) : c.2 < values.length := by
  have hlt := h.lt
  have hlength := (h.up (c.2 - 1) (by omega) (by omega)).lt_length
  omega

/-- A climb that begins inside another one is that one. -/
theorem eq_of_le (hc : IsClimb values c) (hd : IsClimb values d) (hle : c.1 ≤ d.1)
    (hin : d.1 ≤ c.2) : c = d := by
  have hfoot : c.1 = d.1 := by
    rcases Nat.lt_or_eq_of_le hle with hlt | heq
    · -- the step to the foot of the second would belong to the first
      exact absurd (hc.up (d.1 - 1) (by omega) (by omega)) (hd.foot (d.1 - 1) (by omega))
    · exact heq
  have htop : c.2 = d.2 := by
    -- the one that is over first would go on
    rcases Nat.lt_trichotomy c.2 d.2 with hlt | heq | hlt
    · exact absurd (hd.up c.2 (hfoot ▸ Nat.le_of_lt hc.lt) hlt) hc.top
    · exact heq
    · exact absurd (hc.up d.2 (hfoot ▸ Nat.le_of_lt hd.lt) hlt) hd.top
  exact Prod.ext hfoot htop

/-- A climb is over before a later one begins. -/
theorem lt_of_lt (hc : IsClimb values c) (hd : IsClimb values d) (hlt : c.1 < d.1) :
    c.2 < d.1 := by
  rcases Nat.lt_or_ge c.2 d.1 with h | hin
  · exact h
  · exact absurd (congrArg Prod.fst (hc.eq_of_le hd (Nat.le_of_lt hlt) hin)) (Nat.ne_of_lt hlt)

end IsClimb

/-! ## The walk -/

namespace Rise

/-- The next value is not larger. -/
def sinks (here next : α) : Bool := decide (next ≤ here)

/-- The next value is larger. -/
def grows (here next : α) : Bool := decide (here < next)

/-- What the walk knows at a position: the values rise since the foot of the present climb, if there
is one, and did not rise before. -/
structure Since (values : List α) (foot : Option Nat) (i : Nat) : Prop where
  lt : ∀ t, foot = some t → t < i
  up : ∀ k, foot.getD i ≤ k → k < i → StepUp values k
  before : ∀ k, k + 1 = foot.getD i → ¬ StepUp values k

variable {foot : Option Nat} {i : Nat} {here next : α} {rest : List α}
  {climbs : List (Nat × Nat)}

theorem Since.le (h : Since values foot i) : foot.getD i ≤ i := by
  cases foot with
  | none => exact Nat.le_refl i
  | some t => exact Nat.le_of_lt (h.lt t rfl)

/-- Where the values rise the climb goes on, or begins. -/
theorem Since.rise (h : Since values foot i) (hup : StepUp values i) :
    Since values (some (foot.getD i)) (i + 1) where
  lt := by
    intro t ht
    obtain rfl := Option.some.inj ht
    exact Nat.lt_succ_of_le h.le
  up := by
    intro k hle hlt
    rcases Nat.lt_succ_iff_lt_or_eq.1 hlt with hlt | rfl
    · exact h.up k hle hlt
    · exact hup
  before := h.before

/-- Where they do not rise no climb is left. -/
theorem Since.fall (hdown : ¬ StepUp values i) : Since values none (i + 1) where
  lt := fun t ht => absurd ht (by simp)
  up := fun k hle hlt => absurd hlt (Nat.not_lt.2 hle)
  before := by
    intro k hk
    obtain rfl := Nat.succ.inj hk
    exact hdown

/-- Where the values do not rise, what is finished is the climb that began no later and was not over
before. -/
theorem mem_finished_iff (h : Since values foot i) (hdown : ¬ StepUp values i) :
    c ∈ finished foot i ↔ IsClimb values c ∧ foot.getD i ≤ c.1 ∧ c.1 ≤ i := by
  cases foot with
  | none =>
      constructor
      · intro hmem
        exact absurd hmem List.not_mem_nil
      · rintro ⟨hclimb, hle, hge⟩
        obtain rfl : i = c.1 := Nat.le_antisymm hle hge
        exact absurd hclimb.stepUp_foot hdown
  | some t =>
      have hclimb : IsClimb values (t, i) := ⟨h.lt t rfl, h.up, h.before, hdown⟩
      constructor
      · intro hmem
        obtain rfl := List.mem_singleton.1 hmem
        exact ⟨hclimb, Nat.le_refl t, Nat.le_of_lt hclimb.lt⟩
      · rintro ⟨hc, hle, hge⟩
        exact List.mem_singleton.2 (hclimb.eq_of_le hc hle hge).symm

/-- At the last value no step is left. -/
theorem not_stepUp_of_last (hdrop : values.drop i = [here]) {k : Nat} (hle : i ≤ k) :
    ¬ StepUp values k := by
  intro hup
  have hlt := hup.lt_length
  have hlength := congrArg List.length hdrop
  rw [List.length_drop, List.length_singleton] at hlength
  omega

section Order

variable (hasymm : ∀ a b : α, b ≤ a → ¬ a < b)
include hasymm

/-- One step of the walk: down, which finishes the climb, or up, with which it goes on. -/
theorem walk_cases (hdrop : values.drop i = here :: next :: rest)
    (h : walk i here foot (next :: rest) = some climbs) :
    (¬ StepUp values i ∧ ∃ more, walk (i + 1) next none rest = some more ∧
      climbs = finished foot i ++ more) ∨
    StepUp values i ∧ walk (i + 1) next (some (foot.getD i)) rest = some climbs := by
  obtain ⟨hhere, htail⟩ := Guarded.getElem?_of_drop hdrop
  obtain ⟨hnext, -⟩ := Guarded.getElem?_of_drop htail
  rw [walk] at h
  split at h
  · rename_i hle
    obtain ⟨more, hmore, rfl⟩ := Option.map_eq_some_iff.1 h
    refine Or.inl ⟨?_, more, hmore, rfl⟩
    rintro ⟨a, b, ha, hb, hlt⟩
    obtain rfl : here = a := Option.some.inj (hhere.symm.trans ha)
    obtain rfl : next = b := Option.some.inj (hnext.symm.trans hb)
    exact hasymm _ _ hle hlt
  · split at h
    · rename_i hlt
      exact Or.inr ⟨⟨here, next, hhere, hnext, hlt⟩, h⟩
    · exact absurd h (by simp)

/-- The walk finds the climbs that do not begin before its own foot. -/
theorem mem_walk_iff (hdrop : values.drop i = here :: rest) (hsince : Since values foot i)
    (h : walk i here foot rest = some climbs) :
    c ∈ climbs ↔ IsClimb values c ∧ foot.getD i ≤ c.1 := by
  -- by induction on what is left; `Since` says what the part that is passed has come to
  induction rest generalizing i here foot climbs with
  | nil =>
      obtain rfl := Option.some.inj h
      rw [mem_finished_iff hsince (not_stepUp_of_last hdrop (Nat.le_refl i))]
      constructor
      · rintro ⟨hc, hle, -⟩
        exact ⟨hc, hle⟩
      · rintro ⟨hc, hle⟩
        refine ⟨hc, hle, Nat.le_of_not_lt fun hlt => ?_⟩
        exact not_stepUp_of_last hdrop (Nat.le_of_lt hlt) hc.stepUp_foot
  | cons next rest ih =>
      obtain ⟨-, htail⟩ := Guarded.getElem?_of_drop hdrop
      rcases walk_cases hasymm hdrop h with ⟨hdown, more, hmore, rfl⟩ | ⟨hup, hmore⟩
      · have hfoot := hsince.le
        rw [List.mem_append, mem_finished_iff hsince hdown,
          ih htail (Since.fall hdown) hmore, Option.getD_none]
        constructor
        · rintro (⟨hc, hle, -⟩ | ⟨hc, hle⟩)
          · exact ⟨hc, hle⟩
          · exact ⟨hc, by omega⟩
        · rintro ⟨hc, hle⟩
          rcases Nat.lt_or_ge i c.1 with hlt | hge
          · exact Or.inr ⟨hc, hlt⟩
          · exact Or.inl ⟨hc, hle, hge⟩
      · have hgo := ih htail (hsince.rise hup) hmore
        exact hgo

/-- The walk gives the climbs from the left to the right. -/
theorem pairwise_walk (hdrop : values.drop i = here :: rest) (hsince : Since values foot i)
    (h : walk i here foot rest = some climbs) : climbs.Pairwise fun a b => a.2 < b.1 := by
  have hone : (finished foot i).Pairwise fun a b => a.2 < b.1 := by
    cases foot with
    | none => exact List.Pairwise.nil
    | some t => exact List.pairwise_singleton _ _
  induction rest generalizing i here foot climbs with
  | nil =>
      obtain rfl := Option.some.inj h
      exact hone
  | cons next rest ih =>
      obtain ⟨-, htail⟩ := Guarded.getElem?_of_drop hdrop
      rcases walk_cases hasymm hdrop h with ⟨hdown, more, hmore, rfl⟩ | ⟨hup, hmore⟩
      · -- what is finished is over here, and the rest begins later
        have hfall := Since.fall hdown
        refine List.pairwise_append.2 ⟨hone, ih htail hfall hmore List.Pairwise.nil, ?_⟩
        intro a ha b hb
        obtain ⟨hca, -, hle⟩ := (mem_finished_iff hsince hdown).1 ha
        obtain ⟨hcb, hlt⟩ := (mem_walk_iff hasymm htail hfall hmore).1 hb
        exact hca.lt_of_lt hcb (Nat.lt_of_le_of_lt hle hlt)
      · exact ih htail (hsince.rise hup) hmore (List.pairwise_singleton _ _)

end Order

theorem Since.start (values : List α) : Since values none 0 where
  lt := fun t ht => absurd ht (by simp)
  up := fun k _ hlt => absurd hlt (Nat.not_lt_zero k)
  before := fun k hk => absurd hk (Nat.succ_ne_zero k)

end Rise

/-! ## Where there is an answer -/

/-- Each value is above the one before, or it is not. -/
def NeighboursCompare (values : List α) : Prop := values.IsChain fun a b => b ≤ a ∨ a < b

/-- The walk has an answer exactly where neighbours compare, be it in a climb or not. -/
theorem Rise.isSome_walk_iff (i : Nat) (here : α) (foot : Option Nat) (rest : List α) :
    (walk i here foot rest).isSome = true ↔ NeighboursCompare (here :: rest) := by
  induction rest generalizing i here foot with
  | nil => exact iff_of_true rfl (List.IsChain.singleton here)
  | cons next rest ih =>
      rw [walk, NeighboursCompare, List.isChain_cons_cons]
      split
      · rename_i hle
        rw [Option.isSome_map, ih]
        exact (and_iff_right (Or.inl hle)).symm
      · rename_i hle
        split
        · rename_i hlt
          rw [ih]
          exact (and_iff_right (Or.inr hlt)).symm
        · rename_i hlt
          exact iff_of_false Bool.false_ne_true fun h => h.1.elim hle hlt

/-- Climbs are found exactly where neighbours compare. -/
theorem isSome_rises_iff : (rises values).isSome = true ↔ NeighboursCompare values := by
  cases values with
  | nil => exact iff_of_true rfl List.IsChain.nil
  | cons here rest => exact Rise.isSome_walk_iff 0 here none rest

/-! ## The climbs that are found -/

section Order

variable {climbs : List (Nat × Nat)} (hasymm : ∀ a b : α, b ≤ a → ¬ a < b)
include hasymm

/-- The climbs that are found are the climbs that there are. -/
theorem mem_rises_iff (h : rises values = some climbs) : c ∈ climbs ↔ IsClimb values c := by
  cases values with
  | nil =>
      obtain rfl := Option.some.inj h
      constructor
      · intro hmem
        exact absurd hmem List.not_mem_nil
      · intro hc
        exact absurd hc.lt_length (Nat.not_lt_zero _)
  | cons here rest =>
      rw [Rise.mem_walk_iff hasymm rfl (Rise.Since.start _) h]
      exact and_iff_left (Nat.zero_le _)

/-- Each climb that is found is over before the next one begins. -/
theorem pairwise_rises (h : rises values = some climbs) :
    climbs.Pairwise fun a b => a.2 < b.1 := by
  cases values with
  | nil =>
      obtain rfl := Option.some.inj h
      exact List.Pairwise.nil
  | cons here rest => exact Rise.pairwise_walk hasymm rfl (Rise.Since.start _) h

end Order

end Telematics
