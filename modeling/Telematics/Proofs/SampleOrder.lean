import Mathlib.Data.List.Chain
import Telematics.Series

/-!
# Samples in the order of their times

`Series.Ascending` is the order in which sources deliver samples; samples of one time may follow
each other, and sorting by time keeps them in their order (`filter_time_mergeSort`). In an ascending
series `Series.upTo` and `Series.within` find exactly the samples that their names promise
(`mem_upTo_iff`, `mem_within_iff`), and they cut a contiguous piece out of the series. The position
that `Series.indexAtOrBefore` gives is that of the value that `Series.valueAtOrBefore` gives
(`lookup_cases`).
-/

set_option autoImplicit false

namespace Telematics.Series

variable {α : Type}

/-- No sample is read before the one in front of it. -/
def Ascending (samples : List (Sample α)) : Prop :=
  samples.Pairwise fun a b => a.time ≤ b.time

instance (samples : List (Sample α)) : Decidable (Ascending samples) :=
  inferInstanceAs (Decidable (List.Pairwise _ _))

/-- A test that only fails from some element on keeps exactly the elements that pass it. -/
theorem takeWhile_eq_filter_of_pairwise {β : Type} {p : β → Bool} {xs : List β}
    (hp : xs.Pairwise fun a b => p b = true → p a = true) : xs.takeWhile p = xs.filter p := by
  induction xs with
  | nil => rfl
  | cons x rest ih =>
      obtain ⟨hx, hrest⟩ := List.pairwise_cons.1 hp
      by_cases hpx : p x = true
      · rw [List.takeWhile_cons_of_pos hpx, List.filter_cons_of_pos hpx, ih hrest]
      · rw [List.takeWhile_cons_of_neg hpx, List.filter_cons_of_neg hpx]
        -- no later sample passes, or `x` would
        refine (List.filter_eq_nil_iff.2 ?_).symm
        intro s hs hps
        exact hpx (hx s hs hps)

/-- A test that only passes up to some element drops exactly the elements that pass it. -/
theorem dropWhile_eq_filter_of_pairwise {β : Type} {p : β → Bool} {xs : List β}
    (hp : xs.Pairwise fun a b => p b = true → p a = true) :
    xs.dropWhile p = xs.filter fun x => !p x := by
  induction xs with
  | nil => rfl
  | cons x rest ih =>
      obtain ⟨hx, hrest⟩ := List.pairwise_cons.1 hp
      by_cases hpx : p x = true
      · rw [List.dropWhile_cons_of_pos hpx, List.filter_cons_of_neg (by simp [hpx]), ih hrest]
      · rw [List.dropWhile_cons_of_neg hpx]
        refine (List.filter_eq_self.2 ?_).symm
        intro s hs
        rcases List.mem_cons.1 hs with rfl | hs
        · simpa using hpx
        · simpa using mt (hx s hs) hpx

/-- Up to an instant there are exactly the samples that are not after it. -/
theorem upTo_eq_filter {samples : List (Sample α)} (hsorted : Ascending samples) (t : Instant) :
    upTo t samples = samples.filter fun s => decide (s.time ≤ t) := by
  refine takeWhile_eq_filter_of_pairwise (hsorted.imp ?_)
  intro a b hab hb
  rw [decide_eq_true_eq] at hb ⊢
  exact Int.le_trans hab hb

/-- From an instant on there are exactly the samples that are not before it. -/
theorem dropWhile_eq_filter {samples : List (Sample α)} (hsorted : Ascending samples)
    (start : Instant) :
    (samples.dropWhile fun s => decide (s.time < start)) =
      samples.filter fun s => decide (start ≤ s.time) := by
  rw [dropWhile_eq_filter_of_pairwise]
  · apply List.filter_congr
    intro s _
    rw [← decide_not, decide_eq_decide, Instant.not_lt]
  · apply hsorted.imp
    intro a b hab hb
    rw [decide_eq_true_eq] at hb ⊢
    exact Int.lt_of_le_of_lt hab hb

/-- Between two instants there are exactly the samples that are neither before nor after them. -/
theorem within_eq_filter {samples : List (Sample α)} (hsorted : Ascending samples)
    (start stop : Instant) :
    within start stop samples =
      samples.filter fun s => decide (start ≤ s.time) && decide (s.time ≤ stop) := by
  rw [within, dropWhile_eq_filter hsorted, upTo_eq_filter (hsorted.sublist List.filter_sublist),
    List.filter_filter]
  apply List.filter_congr
  intro s _
  rw [Bool.and_comm]

theorem mem_upTo_iff {samples : List (Sample α)} (hsorted : Ascending samples) {t : Instant}
    {s : Sample α} : s ∈ upTo t samples ↔ s ∈ samples ∧ s.time ≤ t := by
  rw [upTo_eq_filter hsorted, List.mem_filter, decide_eq_true_eq]

theorem mem_within_iff {samples : List (Sample α)} (hsorted : Ascending samples)
    {start stop : Instant} {s : Sample α} :
    s ∈ within start stop samples ↔ s ∈ samples ∧ start ≤ s.time ∧ s.time ≤ stop := by
  rw [within_eq_filter hsorted, List.mem_filter, Bool.and_eq_true, decide_eq_true_eq,
    decide_eq_true_eq]

/-- The last sample up to an instant is read last of all up to then. -/
theorem time_le_of_getLast?_upTo {samples : List (Sample α)} (hsorted : Ascending samples)
    {t : Instant} {s : Sample α} (hs : (upTo t samples).getLast? = some s) :
    s.time ≤ t ∧ ∀ x ∈ samples, x.time ≤ t → x.time ≤ s.time := by
  refine ⟨((mem_upTo_iff hsorted).1 (List.mem_of_getLast? hs)).2, fun x hx hxt => ?_⟩
  have hmem : x ∈ upTo t samples := (mem_upTo_iff hsorted).2 ⟨hx, hxt⟩
  have hupTo : Ascending (upTo t samples) := hsorted.sublist (List.takeWhile_sublist _)
  obtain ⟨early, hearly⟩ := List.getLast?_eq_some_iff.1 hs
  rw [hearly] at hmem hupTo
  rcases List.mem_append.1 hmem with hx | hx
  · exact (List.pairwise_append.1 hupTo).2.2 x hx s (List.mem_singleton_self s)
  · rw [List.mem_singleton.1 hx]
    exact Int.le_refl _

/-- It is also the last one of its time. -/
theorem getLast?_filter_time {samples : List (Sample α)} (hsorted : Ascending samples)
    {t : Instant} {s : Sample α} (hs : (upTo t samples).getLast? = some s) :
    (samples.filter fun x => decide (x.time = s.time)).getLast? = some s := by
  have htime : s.time ≤ t := (time_le_of_getLast?_upTo hsorted hs).1
  have hfilter : (samples.filter fun x => decide (x.time = s.time)) =
      (upTo t samples).filter fun x => decide (x.time = s.time) := by
    rw [upTo_eq_filter hsorted, List.filter_filter]
    apply List.filter_congr
    intro x _
    by_cases hx : x.time = s.time
    · simp [hx, htime]
    · simp [hx]
  obtain ⟨early, hearly⟩ := List.getLast?_eq_some_iff.1 hs
  rw [hfilter, hearly, List.filter_append]
  simp

/-- The samples between two instants stand next to each other in the series. -/
theorem within_isInfix (start stop : Instant) (samples : List (Sample α)) :
    within start stop samples <:+: samples := by
  have hstop : within start stop samples <+: samples.dropWhile fun s => decide (s.time < start) :=
    List.takeWhile_prefix _
  exact hstop.isInfix.trans (List.dropWhile_suffix _).isInfix

/-- Neighbours between two instants are the neighbours in the series that lie between them. -/
theorem isChain_within_iff {samples : List (Sample α)} (hsorted : Ascending samples)
    {start stop : Instant} {R : Sample α → Sample α → Prop} :
    (within start stop samples).IsChain R ↔
      ∀ a b, [a, b] <:+: samples → start ≤ a.time → b.time ≤ stop → R a b := by
  constructor
  · rintro h a b ⟨before, after, rfl⟩ ha hb
    have hab : a.time ≤ b.time := by
      have hpair := (List.pairwise_append.1 (List.pairwise_append.1 hsorted).1).2.1
      exact (List.pairwise_cons.1 hpair).1 b List.mem_cons_self
    have hkeep : [a, b].filter (fun s => decide (start ≤ s.time) && decide (s.time ≤ stop)) =
        [a, b] := by
      apply List.filter_eq_self.2
      intro s hs
      rw [Bool.and_eq_true, decide_eq_true_eq, decide_eq_true_eq]
      rcases List.mem_cons.1 hs with rfl | hs
      · exact ⟨ha, Instant.le_trans hab hb⟩
      · obtain rfl := List.mem_singleton.1 hs
        exact ⟨Instant.le_trans ha hab, hb⟩
    rw [within_eq_filter hsorted, List.filter_append, List.filter_append, hkeep] at h
    exact List.isChain_pair.1 h.left_of_append.right_of_append
  · intro h
    apply (List.isChain_isInfix (within start stop samples)).imp
    intro a b hab
    have ha := (mem_within_iff hsorted).1 (hab.subset List.mem_cons_self)
    have hb := (mem_within_iff hsorted).1 (hab.subset (List.mem_cons_of_mem _ List.mem_cons_self))
    exact h a b (hab.trans (within_isInfix start stop samples)) ha.2.1 hb.2.2

/-- What the last element tells, or else what was told before, once there is an element. -/
theorem getLast?_map_getD_cons {β γ : Type} (f : β → γ) (x : β) (xs : List β) (before : γ) :
    ((x :: xs).getLast?.map f).getD before = (xs.getLast?.map f).getD (f x) := by
  rw [List.getLast?_cons]
  cases xs.getLast? with
  | none => rfl
  | some last => rfl

/-- The last element that passes a test is followed only by elements that do not. -/
theorem exists_split_of_getLast?_filter {β : Type} {p : β → Bool} {xs : List β} {x : β}
    (h : (xs.filter p).getLast? = some x) :
    p x = true ∧ ∃ before after, xs = before ++ x :: after ∧ ∀ y ∈ after, p y = false := by
  rw [List.getLast?_filter, List.find?_eq_some_iff_append] at h
  obtain ⟨hx, after, before, hsplit, hafter⟩ := h
  refine ⟨hx, before.reverse, after.reverse, ?_, ?_⟩
  · rw [← List.reverse_reverse xs, hsplit]
    simp
  · intro y hy
    simpa using hafter y (List.mem_reverse.1 hy)

/-! ## Sorting by time -/

theorem notLater_trans (a b c : Sample α) (hab : decide (a.time ≤ b.time) = true)
    (hbc : decide (b.time ≤ c.time) = true) : decide (a.time ≤ c.time) = true :=
  decide_eq_true (Instant.le_trans (of_decide_eq_true hab) (of_decide_eq_true hbc))

theorem notLater_total (a b : Sample α) :
    (decide (a.time ≤ b.time) || decide (b.time ≤ a.time)) = true := by
  rw [Bool.or_eq_true, decide_eq_true_eq, decide_eq_true_eq]
  exact Int.le_total a.time.nanos b.time.nanos

theorem ascending_mergeSort (samples : List (Sample α)) :
    Ascending (samples.mergeSort fun a b => decide (a.time ≤ b.time)) :=
  (List.pairwise_mergeSort notLater_trans notLater_total samples).imp of_decide_eq_true

/-- Samples of one time stay in their order. -/
theorem filter_time_mergeSort (samples : List (Sample α)) (t : Instant) :
    ((samples.mergeSort fun a b => decide (a.time ≤ b.time)).filter fun s => decide (s.time = t)) =
      samples.filter fun s => decide (s.time = t) := by
  have hsorted : (samples.filter fun s => decide (s.time = t)).Pairwise fun a b =>
      decide (a.time ≤ b.time) = true := by
    apply List.pairwise_of_forall_mem_list
    intro a ha b hb
    have hat : a.time = t := of_decide_eq_true (List.mem_filter.1 ha).2
    have hbt : b.time = t := of_decide_eq_true (List.mem_filter.1 hb).2
    exact decide_eq_true (hat ▸ hbt ▸ Int.le_refl _)
  have hsub := (List.sublist_mergeSort notLater_trans notLater_total hsorted
    List.filter_sublist).filter fun s => decide (s.time = t)
  rw [List.filter_filter] at hsub
  simp only [Bool.and_self] at hsub
  exact (hsub.eq_of_length ((List.mergeSort_perm samples _).filter _).length_eq.symm).symm

/-! ## Lookups by position -/

section Positions

variable {t : Instant} {samples : List (Sample α)} {n : Nat}

theorem indexAtOrBefore_eq_some_iff :
    indexAtOrBefore t samples = some n ↔ (upTo t samples).length = n + 1 := by
  rw [indexAtOrBefore]
  split
  · rename_i h
    simp [h]
  · rename_i m h
    simp [h]

/-- At the position of the last sample at or before an instant is that sample. -/
theorem getElem?_of_indexAtOrBefore (h : indexAtOrBefore t samples = some n) :
    samples[n]? = (upTo t samples).getLast? := by
  have hlength := indexAtOrBefore_eq_some_iff.1 h
  have hsplit : upTo t samples ++ samples.dropWhile (fun s => decide (s.time ≤ t)) = samples :=
    List.takeWhile_append_dropWhile
  rw [List.getLast?_eq_getElem?, hlength, Nat.add_sub_cancel, ← List.getElem?_append_left
    (show n < (upTo t samples).length by omega), hsplit]

theorem upTo_eq_nil_of_indexAtOrBefore (h : indexAtOrBefore t samples = none) :
    upTo t samples = [] := by
  cases hupTo : upTo t samples with
  | nil => rfl
  | cons s rest =>
      rw [indexAtOrBefore, hupTo] at h
      exact absurd h (by simp)

/-- The samples up to an instant go on after samples that all lie at or before it. -/
theorem upTo_append {earlier : List (Sample α)} (h : ∀ s ∈ earlier, s.time ≤ t)
    (later : List (Sample α)) : upTo t (earlier ++ later) = earlier ++ upTo t later :=
  List.takeWhile_append_of_pos fun s hs => decide_eq_true (h s hs)

/-- The position found for a later instant is no smaller. -/
theorem indexAtOrBefore_mono {stop : Instant} {m : Nat} (hle : t ≤ stop)
    (h : indexAtOrBefore t samples = some n) (hstop : indexAtOrBefore stop samples = some m) :
    n ≤ m := by
  have hbefore : ∀ s ∈ upTo t samples, s.time ≤ stop := fun s hs =>
    Instant.le_trans (of_decide_eq_true (List.all_eq_true.1 List.all_takeWhile s hs)) hle
  have hupTo := upTo_append hbefore (samples.dropWhile fun s => decide (s.time ≤ t))
  have hsplit : upTo t samples ++ samples.dropWhile (fun s => decide (s.time ≤ t)) = samples :=
    List.takeWhile_append_dropWhile
  rw [hsplit] at hupTo
  have hlength := congrArg List.length hupTo
  rw [indexAtOrBefore_eq_some_iff] at h hstop
  rw [List.length_append, h] at hlength
  omega

/-- The samples up to the end of a range are those before it and those in it. -/
theorem upTo_eq_append_within {start stop : Instant} (hle : start ≤ stop)
    (samples : List (Sample α)) : upTo stop samples =
      (samples.takeWhile fun s => decide (s.time < start)) ++ within start stop samples := by
  have hbefore : ∀ s ∈ samples.takeWhile fun s => decide (s.time < start), s.time ≤ stop := by
    intro s hs
    have hlt : s.time < start := of_decide_eq_true (List.all_eq_true.1 List.all_takeWhile s hs)
    exact Instant.le_trans (Int.le_of_lt hlt) hle
  have hupTo := upTo_append hbefore (samples.dropWhile fun s => decide (s.time < start))
  rw [List.takeWhile_append_dropWhile] at hupTo
  exact hupTo

/-- A lookup at or before an instant finds nothing, or the value at the position it finds. -/
theorem lookup_cases (t : Instant) (samples : List (Sample α)) :
    (indexAtOrBefore t samples = none ∧ valueAtOrBefore t samples = none) ∨
      ∃ i s, indexAtOrBefore t samples = some i ∧ samples[i]? = some s ∧
        valueAtOrBefore t samples = some s.value := by
  cases hindex : indexAtOrBefore t samples with
  | none =>
      rw [valueAtOrBefore, upTo_eq_nil_of_indexAtOrBefore hindex]
      exact Or.inl ⟨rfl, rfl⟩
  | some i =>
      have hlength := indexAtOrBefore_eq_some_iff.1 hindex
      have hne : upTo t samples ≠ [] := by
        intro hnil
        rw [hnil] at hlength
        exact absurd hlength (by simp)
      have hlast := List.getLast?_eq_some_getLast hne
      refine Or.inr ⟨i, _, rfl, (getElem?_of_indexAtOrBefore hindex).trans hlast, ?_⟩
      rw [valueAtOrBefore, hlast]
      rfl

end Positions

end Telematics.Series
