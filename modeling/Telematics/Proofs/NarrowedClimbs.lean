import Telematics.Proofs.FloatOrder
import Telematics.Proofs.GuardedRecharge

/-!
# Climbs narrowed to their readings

A climb of the smoothed levels is narrowed to the readings from the last lowest of those between its
foot and its top to the first highest of those after that one. Each of the two scans splits the
readings at the one that it finds (`Recharge.LowestSplit`, `Recharge.HighestSplit`); told by
positions this is `Recharge.Narrowed`, which determines both positions
(`Recharge.Narrowed.unique`). Where the reading at the top is above the one at the foot, the first
highest is not the last lowest, so that a rise is left (`Recharge.exists_narrowed`).
-/

set_option autoImplicit false

namespace Telematics.Recharge

open FloatOrder

/-! ## Scans of readings -/

section Scans

variable {whole before after rest : List (Sample Float)} {low high : Sample Float}

/-- Readings are split at the last lowest of them. -/
structure LowestSplit (whole before : List (Sample Float)) (low : Sample Float)
    (after : List (Sample Float)) : Prop where
  number : IsNumber low.value
  eq : whole = before ++ low :: after
  before_ge : ∀ s ∈ before, low.value ≤ s.value
  after_gt : ∀ s ∈ after, low.value < s.value

/-- Readings are split at the first highest of them. -/
structure HighestSplit (whole before : List (Sample Float)) (high : Sample Float)
    (after : List (Sample Float)) : Prop where
  number : IsNumber high.value
  eq : whole = before ++ high :: after
  before_lt : ∀ s ∈ before, s.value < high.value
  after_le : ∀ s ∈ after, s.value ≤ high.value

theorem LowestSplit.le (h : LowestSplit whole before low after) {s : Sample Float}
    (hs : s ∈ whole) : low.value ≤ s.value := by
  rw [h.eq] at hs
  rcases List.mem_append.1 hs with hs | hs
  · exact h.before_ge s hs
  · rcases List.mem_cons.1 hs with rfl | hs
    · exact le_refl h.number
    · exact le_of_lt (h.after_gt s hs)

theorem HighestSplit.le (h : HighestSplit whole before high after) {s : Sample Float}
    (hs : s ∈ whole) : s.value ≤ high.value := by
  rw [h.eq] at hs
  rcases List.mem_append.1 hs with hs | hs
  · exact le_of_lt (h.before_lt s hs)
  · rcases List.mem_cons.1 hs with rfl | hs
    · exact le_refl h.number
    · exact h.after_le s hs

/-- The scan goes on from the readings that it has passed, split at the lowest so far, and splits
all readings. -/
theorem LowestSplit.exists_lastLowest (h : LowestSplit whole before low after)
    (hnumbers : ∀ s ∈ rest, IsNumber s.value) :
    ∃ before' a after', lastLowest low (after ++ rest) rest = (a, after') ∧
      LowestSplit (whole ++ rest) before' a after' := by
  -- one reading more is the lowest from now on, or comes after the lowest so far
  induction rest generalizing whole before low after with
  | nil =>
      rw [List.append_nil, List.append_nil]
      exact ⟨before, low, after, rfl, h⟩
  | cons s rest ih =>
      obtain ⟨hs, hrest⟩ := List.forall_mem_cons.1 hnumbers
      rw [lastLowest, List.append_cons whole]
      split
      · rename_i hle
        have hnext : LowestSplit (whole ++ [s]) whole s [] :=
          ⟨hs, rfl, fun t ht => le_trans hle (h.le ht), by simp⟩
        exact ih hnext hrest
      · rename_i hnot
        have hlt : low.value < s.value := (le_or_lt hs h.number).resolve_left hnot
        have hnext : LowestSplit (whole ++ [s]) before low (after ++ [s]) := by
          refine ⟨h.number, by simp [h.eq], h.before_ge, ?_⟩
          intro t ht
          rcases List.mem_append.1 ht with ht | ht
          · exact h.after_gt t ht
          · exact List.mem_singleton.1 ht ▸ hlt
        rw [List.append_cons after]
        exact ih hnext hrest

theorem HighestSplit.exists_firstHighest (h : HighestSplit whole before high after)
    (hnumbers : ∀ s ∈ rest, IsNumber s.value) :
    ∃ before' after', HighestSplit (whole ++ rest) before' (firstHighest high rest) after' := by
  induction rest generalizing whole before high after with
  | nil =>
      rw [List.append_nil]
      exact ⟨before, after, h⟩
  | cons s rest ih =>
      obtain ⟨hs, hrest⟩ := List.forall_mem_cons.1 hnumbers
      rw [firstHighest, List.append_cons whole]
      split
      · rename_i hlt
        have hnext : HighestSplit (whole ++ [s]) whole s [] :=
          ⟨hs, rfl, fun t ht => lt_of_le_of_lt (h.le ht) hlt, by simp⟩
        exact ih hnext hrest
      · rename_i hnot
        have hle : s.value ≤ high.value := le_of_not_lt h.number hs hnot
        have hnext : HighestSplit (whole ++ [s]) before high (after ++ [s]) := by
          refine ⟨h.number, by simp [h.eq], h.before_lt, ?_⟩
          intro t ht
          rcases List.mem_append.1 ht with ht | ht
          · exact h.after_le t ht
          · exact List.mem_singleton.1 ht ▸ hle
        exact ih hnext hrest

end Scans

/-! ## Positions -/

section Positions

variable {α : Type} {samples : List (Sample α)} {foot top k : Nat}

/-- The samples between two positions are those at these positions and the ones between them. -/
theorem getElem?_between (hle : foot + k ≤ top) :
    (between foot top samples)[k]? = samples[foot + k]? := by
  rw [between, List.getElem?_take, if_pos (by omega), List.getElem?_drop]

theorem length_between (foot : Nat) (h : top < samples.length) :
    (between foot top samples).length = top + 1 - foot := by
  rw [between, List.length_take, List.length_drop]
  omega

end Positions

/-! ## Narrowed climbs -/

variable {charge later : List (Sample Float)} {c : Nat × Nat} {low high : Nat}
  {a b foot top : Sample Float}

/-- Between the positions of a climb, the reading at `low` is the last lowest, the one at `high` is
the first highest of those from there on, and it is the higher of the two. -/
structure Narrowed (charge : List (Sample Float)) (c : Nat × Nat) (low high : Nat)
    (a b : Sample Float) : Prop where
  foot_le : c.1 ≤ low
  lt : low < high
  le_top : high ≤ c.2
  low_eq : charge[low]? = some a
  high_eq : charge[high]? = some b
  rise : a.value < b.value
  lowest : ∀ k s, c.1 ≤ k → k ≤ c.2 → charge[k]? = some s → a.value ≤ s.value
  last : ∀ k s, low < k → k ≤ c.2 → charge[k]? = some s → a.value < s.value
  highest : ∀ k s, low ≤ k → k ≤ c.2 → charge[k]? = some s → s.value ≤ b.value
  first : ∀ k s, low ≤ k → k < high → charge[k]? = some s → s.value < b.value

/-- A climb is narrowed to a range. -/
def NarrowsTo (charge : List (Sample Float)) (c : Nat × Nat) (r : Range) : Prop :=
  ∃ low high a b, Narrowed charge c low high a b ∧ r = ⟨a.time, b.time⟩

namespace Narrowed

variable {low' high' : Nat} {a' b' : Sample Float}

theorem not_low_lt (h : Narrowed charge c low high a b) (h' : Narrowed charge c low' high' a' b') :
    ¬ low < low' := by
  intro hlt
  have hup := h.last low' a' hlt (Nat.le_trans (Nat.le_of_lt h'.lt) h'.le_top) h'.low_eq
  have htop : low ≤ c.2 := Nat.le_trans (Nat.le_of_lt h.lt) h.le_top
  exact not_lt_of_le (h'.lowest low a h.foot_le htop h.low_eq) hup

theorem not_high_lt (h : Narrowed charge c low high a b)
    (h' : Narrowed charge c low high' a' b') : ¬ high < high' := by
  intro hlt
  have hup := h'.first high b (Nat.le_of_lt h.lt) hlt h.high_eq
  exact not_lt_of_le (h.highest high' b' (Nat.le_of_lt h'.lt) h'.le_top h'.high_eq) hup

/-- There is one way to narrow a climb. -/
theorem unique (h : Narrowed charge c low high a b) (h' : Narrowed charge c low' high' a' b') :
    a = a' ∧ b = b' := by
  obtain rfl : low = low' :=
    Nat.le_antisymm (Nat.le_of_not_lt (not_low_lt h' h)) (Nat.le_of_not_lt (not_low_lt h h'))
  obtain rfl : high = high' :=
    Nat.le_antisymm (Nat.le_of_not_lt (not_high_lt h' h)) (Nat.le_of_not_lt (not_high_lt h h'))
  exact ⟨Option.some.inj (h.low_eq.symm.trans h'.low_eq),
    Option.some.inj (h.high_eq.symm.trans h'.high_eq)⟩

end Narrowed

theorem NarrowsTo.unique {r r' : Range} (h : NarrowsTo charge c r) (h' : NarrowsTo charge c r') :
    r = r' := by
  obtain ⟨low, high, a, b, hn, rfl⟩ := h
  obtain ⟨low', high', a', b', hn', rfl⟩ := h'
  obtain ⟨rfl, rfl⟩ := hn.unique hn'
  rfl

section Splits

variable {before after climbed rest : List (Sample Float)}

/-- Where the last of some readings is above the first, what the second scan finds is above what the
first one does. -/
theorem LowestSplit.lt (hlow : LowestSplit (foot :: later) before a after)
    (hhigh : HighestSplit (a :: after) climbed b rest)
    (hlast : (foot :: later).getLast? = some top) (hrise : foot.value < top.value) :
    a.value < b.value := by
  cases after with
  | nil =>
      -- the lowest would be the last one, and yet not above the first
      rw [hlow.eq, List.getLast?_concat] at hlast
      obtain rfl := Option.some.inj hlast
      exact absurd hrise (not_lt_of_le (hlow.le List.mem_cons_self))
  | cons s after =>
      have hle : s.value ≤ b.value := hhigh.le (List.mem_cons_of_mem a List.mem_cons_self)
      exact lt_of_lt_of_le (hlow.after_gt s List.mem_cons_self) hle

/-- What the two scans find between the positions of a climb, told by positions. -/
theorem LowestSplit.narrowed (hlow : LowestSplit (between c.1 c.2 charge) before a after)
    (hhigh : HighestSplit (a :: after) climbed b rest) (hrise : a.value < b.value)
    (htop : c.2 < charge.length) :
    Narrowed charge c (c.1 + before.length) (c.1 + before.length + climbed.length) a b := by
  have hlength := length_between c.1 htop
  have hlength' := congrArg List.length hhigh.eq
  rw [hlow.eq, List.length_append, List.length_cons] at hlength
  rw [List.length_append, List.length_cons, List.length_cons] at hlength'
  have hin : ∀ m, c.1 + m ≤ c.2 → charge[c.1 + m]? = (before ++ a :: after)[m]? := by
    intro m hm
    rw [← hlow.eq, getElem?_between hm]
  have hfrom : ∀ m, c.1 + before.length + m ≤ c.2 →
      charge[c.1 + before.length + m]? = (a :: after)[m]? := by
    intro m hm
    rw [Nat.add_assoc, hin _ (by omega), List.getElem?_append_right (Nat.le_add_right _ _),
      Nat.add_sub_cancel_left]
  refine ⟨Nat.le_add_right _ _, ?_, by omega, hfrom 0 (by omega), ?_, hrise, ?_, ?_, ?_, ?_⟩
  · rcases List.eq_nil_or_concat climbed with rfl | ⟨init, s, rfl⟩
    · obtain ⟨rfl, -⟩ := List.cons.inj hhigh.eq
      exact absurd hrise (not_lt_of_le (le_of_lt hrise))
    · simp
  · rw [hfrom _ (by omega), hhigh.eq, List.getElem?_append_right (Nat.le_refl _), Nat.sub_self]
    rfl
  · intro k s hk hkt hs
    obtain ⟨m, rfl⟩ := Nat.exists_eq_add_of_le hk
    rw [hin m hkt, ← hlow.eq] at hs
    exact hlow.le (List.mem_of_getElem? hs)
  · intro k s hk hkt hs
    obtain ⟨m, rfl⟩ := Nat.exists_eq_add_of_lt hk
    rw [Nat.add_assoc, hfrom _ (by omega), List.getElem?_cons_succ] at hs
    exact hlow.after_gt s (List.mem_of_getElem? hs)
  · intro k s hk hkt hs
    obtain ⟨m, rfl⟩ := Nat.exists_eq_add_of_le hk
    rw [hfrom m hkt] at hs
    exact hhigh.le (List.mem_of_getElem? hs)
  · intro k s hk hkt hs
    obtain ⟨m, rfl⟩ := Nat.exists_eq_add_of_le hk
    rw [hfrom m (by omega), hhigh.eq, List.getElem?_append_left (by omega)] at hs
    exact hhigh.before_lt s (List.mem_of_getElem? hs)

end Splits

/-- A climb at whose top the reading is above the one at its foot is narrowed to a rise. -/
theorem exists_narrowed (hnumbers : ∀ s ∈ charge, IsNumber s.value) (hlt : c.1 < c.2)
    (hfoot : charge[c.1]? = some foot) (htop : charge[c.2]? = some top)
    (hrise : foot.value < top.value) :
    ∃ later, between c.1 c.2 charge = foot :: later ∧ NarrowsTo charge c (narrowed foot later) := by
  obtain ⟨later, hbetween⟩ : ∃ later, between c.1 c.2 charge = foot :: later :=
    ⟨_, Guarded.between_eq_cons (Nat.le_of_lt hlt) hfoot⟩
  have hin := (List.getElem?_eq_some_iff.1 htop).1
  have hlast : (between c.1 c.2 charge).getLast? = some top := by
    rw [List.getLast?_eq_getElem?, length_between c.1 hin, getElem?_between (by omega), ← htop]
    exact congrArg _ (by omega)
  have hbetweens : ∀ s ∈ between c.1 c.2 charge, IsNumber s.value := fun s hs =>
    hnumbers s (List.mem_of_mem_drop (List.mem_of_mem_take hs))
  rw [hbetween] at hlast hbetweens
  obtain ⟨hfirst, hlater⟩ := List.forall_mem_cons.1 hbetweens
  have hone : LowestSplit [foot] [] foot [] := ⟨hfirst, rfl, by simp, by simp⟩
  obtain ⟨before, a, after, hlowest, hlow⟩ := hone.exists_lastLowest hlater
  have hafter : ∀ s ∈ after, IsNumber s.value := fun s hs =>
    (isNumber_of_lt (hlow.after_gt s hs)).2
  have htwo : HighestSplit [a] [] a [] := ⟨hlow.number, rfl, by simp, by simp⟩
  obtain ⟨climbed, rest, hhigh⟩ := htwo.exists_firstHighest hafter
  have hab := hlow.lt hhigh hlast hrise
  have hfound : narrowed foot later = ⟨a.time, (firstHighest a after).time⟩ := by
    rw [narrowed, show lastLowest foot later later = (a, after) from hlowest]
  rw [show [foot] ++ later = between c.1 c.2 charge from hbetween.symm] at hlow
  exact ⟨later, hbetween, _, _, a, _, hlow.narrowed hhigh hab hin, hfound⟩

end Telematics.Recharge
