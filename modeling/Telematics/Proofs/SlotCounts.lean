import Telematics.Detection.Arrivals
import Telematics.Proofs.StretchScores

/-!
# Counts of slots

The second mechanism of `Arrivals` walks over the slots of a scan and the windows of an answer side
by side. Here the walk is a lookup: each slot has the count of the window that starts with it, or
zero (`dense_eq_map`), and no window counts twice (`sum_dense_le`). A slot is active exactly when
one of the stretches of slots that end with it gains more than the threshold
(`mem_activeSlots_iff`), so that more windows leave every active slot active (`activeSlots_subset`).
-/

set_option autoImplicit false

namespace Telematics

namespace Instant

/-- The instants of a scan by their numbers. -/
theorem getElem?_every {step : Span} {start stop t : Instant} {k : Nat} (h : 0 < step) :
    (every step start stop)[k]? = some t ↔ t = start + step * (k : Int) ∧ t < stop := by
  have hnumber : ∀ (i : Nat) (s : Instant), (every step start stop)[i]? = some s →
      s = start + step * (i : Int) := by
    intro i s hs
    rw [every, List.getElem?_map] at hs
    obtain ⟨j, hj, rfl⟩ := Option.map_eq_some_iff.1 hs
    obtain ⟨_, rfl⟩ := List.getElem?_eq_some_iff.1 hj
    rw [List.getElem_range]
  constructor
  · intro hk
    obtain ⟨-, -, hlt⟩ := (mem_every h).1 (List.mem_of_getElem? hk)
    exact ⟨hnumber k t hk, hlt⟩
  · rintro ⟨rfl, hlt⟩
    obtain ⟨i, hi⟩ := List.mem_iff_getElem?.1 ((mem_every h).2 ⟨k, rfl, hlt⟩)
    have heq : start.nanos + step * (k : Int) = start.nanos + step * (i : Int) :=
      congrArg nanos (hnumber i _ hi)
    have hne : step ≠ 0 := Int.ne_of_gt h
    have hik : (k : Int) = i := Int.eq_of_mul_eq_mul_left hne (Int.add_left_cancel heq)
    obtain rfl : k = i := by omega
    exact hi

/-- A scan goes forward. -/
theorem pairwise_every {step : Span} {start stop : Instant} (h : 0 < step) :
    (every step start stop).Pairwise fun a b => a < b := by
  rw [every, List.pairwise_map]
  apply List.pairwise_lt_range.imp
  intro i j hij
  rw [lt_iff, nanos_add, nanos_add]
  exact Int.add_lt_add_left (Int.mul_lt_mul_of_pos_left (by omega) h) _

end Instant

namespace Arrivals

/-! ## Counts by lookup -/

/-- The count of the window that starts with a slot, or zero. -/
def countAt (windows : List Window) (slot : Instant) : Nat :=
  ((windows.find? fun w => decide (w.start = slot)).map Window.signalCount).getD 0

theorem countAt_cons (w : Window) (windows : List Window) (slot : Instant) :
    countAt (w :: windows) slot =
      if w.start = slot then w.signalCount else countAt windows slot := by
  rw [countAt, List.find?_cons]
  split <;> simp_all [countAt]

theorem countAt_eq_zero {windows : List Window} {slot : Instant}
    (h : ∀ w ∈ windows, w.start ≠ slot) : countAt windows slot = 0 := by
  have hnone : (windows.find? fun w => decide (w.start = slot)) = none := by
    simpa using h
  rw [countAt, hnone]
  rfl

theorem countAt_eq_of_mem {windows : List Window} {w : Window}
    (hsorted : windows.Pairwise fun a b => a.start < b.start) (hw : w ∈ windows) :
    countAt windows w.start = w.signalCount := by
  induction windows with
  | nil => exact absurd hw List.not_mem_nil
  | cons v rest ih =>
      obtain ⟨hv, hrest⟩ := List.pairwise_cons.1 hsorted
      rw [countAt_cons]
      rcases List.mem_cons.1 hw with rfl | hw
      · rw [if_pos rfl]
      · have hne : v.start ≠ w.start := by
          intro heq
          have hlt := hv w hw
          rw [heq, Instant.lt_iff] at hlt
          omega
        rw [if_neg hne, ih hrest hw]

/-- Windows before a slot do not matter to it. -/
theorem countAt_dropWhile (windows : List Window) {slot later : Instant} (h : slot ≤ later) :
    countAt (windows.dropWhile fun w => decide (w.start < slot)) later = countAt windows later := by
  induction windows with
  | nil => rfl
  | cons w rest ih =>
      rw [List.dropWhile_cons]
      split
      · rename_i hlt
        have hne : w.start ≠ later := by
          rintro rfl
          exact absurd (of_decide_eq_true hlt) (Instant.not_lt.2 h)
        rw [ih, countAt_cons, if_neg hne]
      · rfl

/-- The walk over slots and windows is a lookup for each slot. -/
theorem dense_eq_map {slots : List Instant} {windows : List Window}
    (hslots : slots.Pairwise fun a b => a < b)
    (hsorted : windows.Pairwise fun a b => a.start < b.start) :
    dense slots windows = slots.map (countAt windows) := by
  induction slots generalizing windows with
  | nil => rfl
  | cons slot later ih =>
      obtain ⟨hslot, hlater⟩ := List.pairwise_cons.1 hslots
      -- what the walk drops now is before every later slot as well
      have hdrop : ∀ t ∈ slot :: later,
          countAt (windows.dropWhile fun w => decide (w.start < slot)) t = countAt windows t := by
        intro t ht
        apply countAt_dropWhile
        rcases List.mem_cons.1 ht with rfl | ht
        · exact Int.le_refl _
        · exact Int.le_of_lt (hslot t ht)
      rw [← List.map_congr_left hdrop, List.map_cons, dense]
      have hleft := hsorted.sublist (List.dropWhile_sublist fun w => decide (w.start < slot))
      cases hcase : windows.dropWhile fun w => decide (w.start < slot) with
      | nil =>
          simp only
          rw [ih hlater List.Pairwise.nil]
          rfl
      | cons w rest =>
          rw [hcase] at hleft
          obtain ⟨hw, hrest⟩ := List.pairwise_cons.1 hleft
          have hge : slot ≤ w.start := by
            have hhead := List.head_dropWhile_not (fun w : Window => decide (w.start < slot))
              (l := windows) (by rw [hcase]; exact List.cons_ne_nil _ _)
            simp only [hcase, List.head_cons, decide_eq_false_iff_not] at hhead
            exact Instant.not_lt.1 hhead
          simp only
          split
          · rename_i heq
            have hskip : ∀ t ∈ later, countAt (w :: rest) t = countAt rest t := by
              intro t ht
              have hne : w.start ≠ t := by
                rintro rfl
                have hlt := hslot _ ht
                rw [heq, Instant.lt_iff] at hlt
                omega
              rw [countAt_cons, if_neg hne]
            rw [ih hlater hrest, List.map_congr_left hskip, countAt_cons, if_pos heq]
          · rename_i hne
            have hzero : countAt (w :: rest) slot = 0 := by
              apply countAt_eq_zero
              intro v hv heq
              rcases List.mem_cons.1 hv with rfl | hv
              · exact hne heq
              · have hlt := hw v hv
                rw [heq] at hlt
                exact absurd hlt (Instant.not_lt.2 hge)
            rw [ih hlater hleft, hzero]

@[simp] theorem length_dense (slots : List Instant) (windows : List Window) :
    (dense slots windows).length = slots.length := by
  induction slots generalizing windows with
  | nil => rfl
  | cons slot later ih =>
      rw [dense]
      split
      · simp [ih]
      · split <;> simp [ih]

/-- The walk counts no window twice. -/
theorem sum_dense_le (slots : List Instant) (windows : List Window) :
    (dense slots windows).sum ≤ (windows.map Window.signalCount).sum := by
  induction slots generalizing windows with
  | nil => exact Nat.zero_le _
  | cons slot later ih =>
      have hdrop : ((windows.dropWhile fun w => decide (w.start < slot)).map
          Window.signalCount).sum ≤ (windows.map Window.signalCount).sum := by
        have hsplit := List.takeWhile_append_dropWhile (p := fun w : Window =>
          decide (w.start < slot)) (l := windows)
        have hsum := congrArg (fun ws => (ws.map Window.signalCount).sum) hsplit
        simp only [List.map_append, List.sum_append_nat] at hsum
        omega
      rw [dense]
      split
      · rw [List.sum_cons, Nat.zero_add]
        exact Nat.le_trans (ih []) (Nat.zero_le _)
      · rename_i w rest hcase
        rw [hcase, List.map_cons, List.sum_cons] at hdrop
        split
        · have hrest := ih rest
          rw [List.sum_cons]
          omega
        · have hrest := ih (w :: rest)
          rw [List.map_cons, List.sum_cons] at hrest
          rw [List.sum_cons]
          omega

/-! ## Active slots -/

/-- An active stretch is one slot long. -/
theorem mem_of_mem_activeSlots {slots : List Instant} {windows : List Window} {a : Range}
    (ha : a ∈ activeSlots slots windows) : a.start ∈ slots ∧ a.stop = a.start + windowLength := by
  rw [activeSlots, List.mem_map] at ha
  obtain ⟨⟨slot, high⟩, hmem, rfl⟩ := ha
  exact ⟨(List.of_mem_zip (List.mem_filter.1 hmem).1).1, rfl⟩

/-- A slot is active exactly when one of the stretches that end with it gains more than the
threshold. -/
theorem mem_activeSlots_iff {slots : List Instant} {windows : List Window} {a : Range}
    (hfits : 2 * ((dense slots windows).sum : Int) < Number.twoTo Cusum.precision) :
    a ∈ activeSlots slots windows ↔
      ∃ k slot, slots[k]? = some slot ∧ a = ⟨slot, slot + windowLength⟩ ∧
        ∃ j ≤ k, Cusum.threshold < Cusum.gain (((dense slots windows).take (k + 1)).drop j) := by
  rw [activeSlots, List.mem_map]
  constructor
  · rintro ⟨⟨slot, high⟩, hmem, rfl⟩
    obtain ⟨hzip, rfl⟩ := List.mem_filter.1 hmem
    obtain ⟨k, hk⟩ := List.mem_iff_getElem?.1 hzip
    rw [List.getElem?_zip_eq_some] at hk
    exact ⟨k, slot, hk.1, rfl, ((Cusum.getElem?_active_eq_true_iff hfits).1 hk.2).2⟩
  · rintro ⟨k, slot, hslot, rfl, hgain⟩
    have hk : k < (dense slots windows).length := by
      rw [length_dense]
      exact (List.getElem?_eq_some_iff.1 hslot).1
    have hactive := (Cusum.getElem?_active_eq_true_iff hfits).2 ⟨hk, hgain⟩
    refine ⟨(slot, true), List.mem_filter.2 ⟨?_, rfl⟩, rfl⟩
    exact List.mem_of_getElem? (List.getElem?_zip_eq_some.2 ⟨hslot, hactive⟩)

/-- Active slots are in the order of the slots. -/
theorem pairwise_activeSlots {slots : List Instant} (windows : List Window)
    (hslots : slots.Pairwise fun a b => a < b) :
    (activeSlots slots windows).Pairwise fun a b => a.start < b.start := by
  have hzip : (slots.zip (Cusum.active (dense slots windows))).map Prod.fst = slots := by
    apply List.map_fst_zip
    simp [Cusum.active]
  rw [← hzip, List.pairwise_map] at hslots
  rw [activeSlots, List.pairwise_map]
  exact hslots.sublist List.filter_sublist

/-- More windows with no smaller counts leave every active slot active. -/
theorem activeSlots_subset {slots : List Instant} {windows more : List Window}
    (hslots : slots.Pairwise fun a b => a < b)
    (hsorted : windows.Pairwise fun a b => a.start < b.start)
    (hsorted' : more.Pairwise fun a b => a.start < b.start)
    (hmore : ∀ slot, countAt windows slot ≤ countAt more slot)
    (hfits : 2 * ((dense slots more).sum : Int) < Number.twoTo Cusum.precision) :
    activeSlots slots windows ⊆ activeSlots slots more := by
  have hdense := dense_eq_map hslots hsorted
  have hdense' := dense_eq_map hslots hsorted'
  have hsum := Cusum.gain_map_le hmore slots
  rw [← hdense, ← hdense'] at hsum
  simp only [Cusum.gain, length_dense] at hsum
  intro a ha
  obtain ⟨k, slot, hslot, rfl, j, hj, hgain⟩ := (mem_activeSlots_iff (by omega)).1 ha
  refine (mem_activeSlots_iff hfits).2 ⟨k, slot, hslot, rfl, j, hj, Int.lt_of_lt_of_le hgain ?_⟩
  rw [hdense, hdense', ← List.map_take, ← List.map_take, ← List.map_drop, ← List.map_drop]
  exact Cusum.gain_map_le hmore _

end Arrivals

end Telematics
