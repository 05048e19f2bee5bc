import Mathlib.Data.List.Forall2
import Telematics.Range

/-!
# Merged ranges

`Range.coalesce` walks once over ranges that are sorted by their starts. `Joined` says of which
ranges a merged one has grown, one after the other, and `exists_groups_mergeWith` splits the sorted
ranges into the groups of the merged ones. Merged ranges are apart: each is over before the next one
starts (`pairwise_mergeWith`), and more than the gap earlier where every short gap is bridged
(`pairwise_merge_apart`). What holds of all ranges and is kept by `Range.extend` holds of the merged
ones (`forall_mem_mergeWith`).

Merging is monotone: ranges that lie within others are merged to ranges that lie within what the
others are merged to, also across wider gaps (`exists_within_merge`).
-/

set_option autoImplicit false

namespace Telematics.Range

variable {gap : Span} {passes : Range → Range → Bool}

/-- The first range is over before the second one starts. -/
def Before (a b : Range) : Prop := a.stop < b.start

@[simp] theorem start_extend (r next : Range) : (r.extend next).start = r.start := rfl

@[simp] theorem stop_extend (r next : Range) : (r.extend next).stop = max r.stop next.stop := rfl

/-- What grows from a list of ranges when each is joined with what has grown before it. -/
inductive Joined (gap : Span) (passes : Range → Range → Bool) : List Range → Range → Prop
  | single (r : Range) : Joined gap passes [r] r
  | snoc {members : List Range} {r next : Range} : Joined gap passes members r →
      joins gap passes r next = true → Joined gap passes (members ++ [next]) (r.extend next)

theorem Joined.ne_nil {members : List Range} {m : Range} (h : Joined gap passes members m) :
    members ≠ [] := by
  cases h with
  | single => exact List.cons_ne_nil _ _
  | snoc _ _ => exact List.append_ne_nil_of_right_ne_nil _ (List.cons_ne_nil _ _)

/-- Ranges that are not joined are apart. -/
theorem before_of_joins_eq_false {r next : Range} (h : joins gap passes r next = false) :
    r.Before next := by
  have hgap : ¬ next.start ≤ r.stop := by
    intro hle
    rw [joins_iff.2 (Or.inl hle)] at h
    exact Bool.noConfusion h
  exact Int.not_le.1 hgap

/-- What holds of the members and is kept by `extend` holds of what grows from them. -/
theorem Joined.forall_mem {P : Range → Prop} (hextend : ∀ a b, P a → P b → P (a.extend b))
    {members : List Range} {m : Range} (h : Joined gap passes members m) :
    (∀ r ∈ members, P r) → P m := by
  induction h with
  | single r =>
      intro hall
      exact hall r List.mem_cons_self
  | snoc _ _ ih =>
      intro hall
      refine hextend _ _ (ih fun r hr => hall r ?_) (hall _ ?_)
      · exact List.mem_append_left _ hr
      · exact List.mem_append_right _ List.mem_cons_self

/-- The walk splits what has grown so far and the rest of the ranges into groups, one for each range
that it gives. -/
theorem exists_groups_coalesce {members : List Range} {r : Range}
    (hr : Joined gap passes members r) (rest : List Range) :
    ∃ groups : List (List Range), groups.flatten = members ++ rest ∧
      List.Forall₂ (Joined gap passes) groups (coalesce gap passes r rest) := by
  -- the group that is still growing is part of the induction
  induction rest generalizing members r with
  | nil => exact ⟨[members], by simp, .cons hr .nil⟩
  | cons next rest ih =>
      cases hj : joins gap passes r next with
      | true =>
          obtain ⟨groups, hflat, hall⟩ := ih (.snoc hr hj)
          refine ⟨groups, ?_, ?_⟩
          · rw [hflat, List.append_assoc, List.singleton_append]
          · simpa only [coalesce, hj, if_true] using hall
      | false =>
          obtain ⟨groups, hflat, hall⟩ := ih (.single next)
          refine ⟨members :: groups, ?_, ?_⟩
          · rw [List.flatten_cons, hflat, List.singleton_append]
          · simpa only [coalesce, hj, Bool.false_eq_true, if_false] using List.Forall₂.cons hr hall

/-- Merging splits the sorted ranges into groups, one for each merged range. -/
theorem exists_groups_mergeWith (gap : Span) (passes : Range → Range → Bool)
    (ranges : List Range) :
    ∃ groups : List (List Range), groups.flatten = ranges.mergeSort notAfter ∧
      List.Forall₂ (Joined gap passes) groups (mergeWith gap passes ranges) := by
  rw [mergeWith]
  cases ranges.mergeSort notAfter with
  | nil => exact ⟨[], rfl, .nil⟩
  | cons r rest => exact exists_groups_coalesce (.single r) rest

/-- Each merged range has grown from neighbours in the order of the ranges. -/
theorem exists_joined_of_mem_mergeWith {ranges : List Range} {m : Range}
    (hm : m ∈ mergeWith gap passes ranges) :
    ∃ members, Joined gap passes members m ∧ members <:+: ranges.mergeSort notAfter := by
  obtain ⟨groups, hflat, hall⟩ := exists_groups_mergeWith gap passes ranges
  obtain ⟨i, hi, rfl⟩ := List.mem_iff_getElem.1 hm
  have hlen : i < groups.length := by rw [hall.length_eq]; exact hi
  refine ⟨groups[i], hall.get hlen hi, ?_⟩
  rw [← hflat]
  exact List.infix_of_mem_flatten (List.getElem_mem hlen)

/-- What holds of all ranges and is kept by `extend` holds of the merged ones. -/
theorem forall_mem_mergeWith {P : Range → Prop} (hextend : ∀ a b, P a → P b → P (a.extend b))
    {ranges : List Range} (hall : ∀ r ∈ ranges, P r) : ∀ m ∈ mergeWith gap passes ranges, P m := by
  intro m hm
  obtain ⟨members, hjoined, hpart⟩ := exists_joined_of_mem_mergeWith hm
  refine hjoined.forall_mem hextend fun r hr => hall r ?_
  exact List.mem_mergeSort.1 (hpart.subset hr)

/-- The order of ranges goes by their starts. -/
theorem start_le_of_notAfter {a b : Range} (h : notAfter a b = true) : a.start ≤ b.start := by
  simp only [notAfter, Bool.or_eq_true, Bool.and_eq_true, decide_eq_true_eq, beq_iff_eq] at h
  rw [Instant.le_iff]
  omega

/-- Sorted ranges are in the order of their starts. -/
theorem pairwise_start_mergeSort (ranges : List Range) :
    (ranges.mergeSort notAfter).Pairwise fun a b => a.start ≤ b.start :=
  (List.pairwise_mergeSort notAfter_trans notAfter_total ranges).imp start_le_of_notAfter

/-- Ranges that start one after the other are in order. -/
theorem mergeSort_eq_self {ranges : List Range} (h : ranges.Pairwise fun a b => a.start < b.start) :
    ranges.mergeSort notAfter = ranges := by
  apply List.mergeSort_of_pairwise
  apply h.imp
  intro a b hlt
  rw [Instant.lt_iff] at hlt
  simp [notAfter, hlt]

/-- The walk gives no range that starts before the growing one. -/
theorem start_le_of_mem_coalesce {r : Range} {rest : List Range}
    (hsorted : (r :: rest).Pairwise fun a b => a.start ≤ b.start) :
    ∀ m ∈ coalesce gap passes r rest, r.start ≤ m.start := by
  induction rest generalizing r with
  | nil =>
      intro m hm
      simp only [coalesce, List.mem_singleton] at hm
      rw [hm]
      exact Int.le_refl _
  | cons next rest ih =>
      intro m hm
      obtain ⟨hr, hnext⟩ := List.pairwise_cons.1 hsorted
      rw [coalesce] at hm
      split at hm
      · -- a joined range keeps its start
        refine ih (r := r.extend next) ?_ m hm
        exact List.pairwise_cons.2 ⟨fun b hb => hr b (List.mem_cons_of_mem _ hb), hnext.of_cons⟩
      · rcases List.mem_cons.1 hm with rfl | hm
        · exact Int.le_refl _
        · exact Int.le_trans (hr next List.mem_cons_self) (ih hnext m hm)

/-- Ranges that the walk gives are in a relation, the earlier to the later, if what is not joined to
the next range is in it to all that starts no earlier than that one. -/
theorem pairwise_coalesce {R : Range → Range → Prop}
    (hgap : ∀ r next m, joins gap passes r next = false → next.start ≤ m.start → R r m)
    {r : Range} {rest : List Range}
    (hsorted : (r :: rest).Pairwise fun a b => a.start ≤ b.start) :
    (coalesce gap passes r rest).Pairwise R := by
  induction rest generalizing r with
  | nil => exact List.pairwise_singleton _ _
  | cons next rest ih =>
      obtain ⟨hr, hnext⟩ := List.pairwise_cons.1 hsorted
      cases hj : joins gap passes r next with
      | true =>
          simp only [coalesce, hj, if_true]
          apply ih
          exact List.pairwise_cons.2 ⟨fun b hb => hr b (List.mem_cons_of_mem _ hb), hnext.of_cons⟩
      | false =>
          simp only [coalesce, hj, Bool.false_eq_true, if_false]
          refine List.pairwise_cons.2 ⟨fun m hm => ?_, ih hnext⟩
          -- `next` is the first range after the gap, and no later one starts before it
          exact hgap r next m hj (start_le_of_mem_coalesce hnext m hm)

/-- So it is for merged ranges. -/
theorem pairwise_mergeWith_of {R : Range → Range → Prop}
    (hgap : ∀ r next m, joins gap passes r next = false → next.start ≤ m.start → R r m)
    (ranges : List Range) : (mergeWith gap passes ranges).Pairwise R := by
  have hsorted := pairwise_start_mergeSort ranges
  rw [mergeWith]
  cases h : ranges.mergeSort notAfter with
  | nil => exact List.Pairwise.nil
  | cons r rest =>
      rw [h] at hsorted
      exact pairwise_coalesce hgap hsorted

/-- Merged ranges are over one before the other. -/
theorem pairwise_mergeWith (gap : Span) (passes : Range → Range → Bool) (ranges : List Range) :
    (mergeWith gap passes ranges).Pairwise Before := by
  apply pairwise_mergeWith_of
  intro r next m hj hle
  exact Int.lt_of_lt_of_le (before_of_joins_eq_false hj) hle

/-! ## Ranges within ranges -/

/-- The first range lies within the second one. -/
def Within (a b : Range) : Prop := b.start ≤ a.start ∧ a.stop ≤ b.stop

/-- The first range is over before the second one starts, and by more than a gap. -/
def Apart (a : Range) (gap : Span) (b : Range) : Prop :=
  a.stop < b.start ∧ a.stop.nanos + gap < b.start.nanos

theorem Within.refl (a : Range) : a.Within a := ⟨Int.le_refl _, Int.le_refl _⟩

theorem Within.trans {a b c : Range} (hab : a.Within b) (hbc : b.Within c) : a.Within c :=
  ⟨Instant.le_trans hbc.1 hab.1, Instant.le_trans hab.2 hbc.2⟩

theorem Within.antisymm {a b : Range} (hab : a.Within b) (hba : b.Within a) : a = b := by
  cases a with
  | mk start stop =>
      cases b with
      | mk start' stop' =>
          rw [Range.mk.injEq]
          exact ⟨Instant.le_antisymm hba.1 hab.1, Instant.le_antisymm hab.2 hba.2⟩

/-- A range does not grow out of one that it lies within by a range that stops in time. -/
theorem Within.extend {r next m : Range} (hr : r.Within m) (hnext : next.stop ≤ m.stop) :
    (r.extend next).Within m :=
  ⟨hr.1, Int.max_le.2 ⟨hr.2, hnext⟩⟩

/-- Ranges merged across all short gaps leave only wider ones. -/
theorem pairwise_merge_apart (gap : Span) (ranges : List Range) :
    (merge gap ranges).Pairwise fun a b => a.Apart gap b := by
  apply pairwise_mergeWith_of
  intro r next m hj hle
  have hnot : ¬ (next.start ≤ r.stop ∨ next.start.nanos ≤ r.stop.nanos + gap) := by
    intro h
    rw [joins_iff.2 (h.imp_right fun hle => ⟨hle, rfl⟩)] at hj
    exact Bool.noConfusion hj
  rw [Instant.le_iff] at hnot hle
  rw [Apart, Instant.lt_iff]
  omega

/-- Two of the ranges that are apart are the same one, or one is over before the other starts. -/
theorem eq_or_apart {ranges : List Range} (h : ranges.Pairwise fun a b => a.Apart gap b)
    {a b : Range} (ha : a ∈ ranges) (hb : b ∈ ranges) : a = b ∨ a.Apart gap b ∨ b.Apart gap a := by
  refine List.Pairwise.forall_of_forall_of_flip
    (R := fun a b => a = b ∨ a.Apart gap b ∨ b.Apart gap a) ?_ ?_ ?_ ha hb
  · exact fun _ _ => Or.inl rfl
  · exact h.imp fun hab => Or.inr (Or.inl hab)
  · exact h.imp fun hab => Or.inr (Or.inr hab)

/-- A range lies within only one of the ranges that are apart. -/
theorem eq_of_within {ranges : List Range} (h : ranges.Pairwise fun a b => a.Apart gap b)
    {r a b : Range} (hr : r.start ≤ r.stop) (ha : a ∈ ranges) (hb : b ∈ ranges)
    (hra : r.Within a) (hrb : r.Within b) : a = b := by
  have hover : ∀ x y : Range, x.Apart gap y → r.Within x → ¬ r.Within y := by
    intro x y hxy hx hy
    have hback : r.stop < r.start :=
      Int.lt_of_le_of_lt hx.2 (Int.lt_of_lt_of_le hxy.1 hy.1)
    exact Instant.not_lt.2 hr hback
  rcases eq_or_apart h ha hb with heq | hab | hba
  · exact heq
  · exact absurd hrb (hover a b hab hra)
  · exact absurd hra (hover b a hba hrb)

/-- Ranges that stop no earlier than they start grow to such a range. -/
theorem Joined.start_le_stop {members : List Range} {m : Range} (h : Joined gap passes members m)
    (hforward : ∀ r ∈ members, r.start ≤ r.stop) : m.start ≤ m.stop := by
  refine h.forall_mem (P := fun r => r.start ≤ r.stop) ?_ hforward
  intro a b ha _
  exact Instant.le_trans ha (Int.le_max_left _ _)

/-- Ranges that stop no earlier than they start are merged to such ranges. -/
theorem start_le_stop_of_mem_mergeWith {ranges : List Range}
    (hforward : ∀ r ∈ ranges, r.start ≤ r.stop) :
    ∀ m ∈ mergeWith gap passes ranges, m.start ≤ m.stop := by
  intro m hm
  obtain ⟨members, hjoined, hpart⟩ := exists_joined_of_mem_mergeWith hm
  exact hjoined.start_le_stop fun r hr => hforward r (List.mem_mergeSort.1 (hpart.subset hr))

/-- Ranges in the order of their starts lie within what grows from them. -/
theorem Joined.within {members : List Range} {m : Range} (h : Joined gap passes members m)
    (hsorted : members.Pairwise fun a b => a.start ≤ b.start) : ∀ r ∈ members, r.Within m := by
  induction h with
  | single r =>
      intro a ha
      rw [List.mem_singleton.1 ha]
      exact Within.refl r
  | @snoc members r next hr _ ih =>
      obtain ⟨hinit, -, hnext⟩ := List.pairwise_append.1 hsorted
      have hin := ih hinit
      intro a ha
      rcases List.mem_append.1 ha with ha | ha
      · exact (hin a ha).trans ⟨Int.le_refl _, Int.le_max_left _ _⟩
      · -- the range starts no later than its first member, and so no later than the next one
        rw [List.mem_singleton.1 ha]
        obtain ⟨first, hfirst⟩ := List.exists_mem_of_ne_nil members hr.ne_nil
        refine ⟨?_, Int.le_max_right _ _⟩
        exact Instant.le_trans (hin first hfirst).1 (hnext first hfirst next List.mem_cons_self)

/-- Each range lies within a merged one. -/
theorem exists_within_mergeWith {ranges : List Range} {a : Range} (ha : a ∈ ranges) :
    ∃ m ∈ mergeWith gap passes ranges, a.Within m := by
  obtain ⟨groups, hflat, hall⟩ := exists_groups_mergeWith gap passes ranges
  have hsorted : groups.flatten.Pairwise fun a b => a.start ≤ b.start := by
    rw [hflat]
    exact pairwise_start_mergeSort ranges
  have hmem : a ∈ groups.flatten := by
    rw [hflat]
    exact List.mem_mergeSort.2 ha
  obtain ⟨group, hgroup, hag⟩ := List.mem_flatten.1 hmem
  obtain ⟨i, hi, rfl⟩ := List.mem_iff_getElem.1 hgroup
  have hlen : i < (mergeWith gap passes ranges).length := by rw [← hall.length_eq]; exact hi
  refine ⟨_, List.getElem_mem hlen, (hall.get hi hlen).within ?_ a hag⟩
  exact (List.pairwise_flatten.1 hsorted).1 _ hgroup

/-- What grows across short gaps from ranges that lie within ranges apart by wider gaps lies within
one of these. -/
theorem Joined.exists_within {wide : Span} (hwide : gap ≤ wide) {outer : List Range}
    (hapart : outer.Pairwise fun a b => a.Apart wide b) {members : List Range} {m : Range}
    (h : Joined gap passes members m) :
    (∀ r ∈ members, r.start ≤ r.stop ∧ ∃ q ∈ outer, r.Within q) → ∃ q ∈ outer, m.Within q := by
  induction h with
  | single r =>
      intro hall
      exact (hall r List.mem_cons_self).2
  | @snoc members r next hr hj ih =>
      intro hall
      have hmembers : ∀ x ∈ members, x.start ≤ x.stop ∧ ∃ q ∈ outer, x.Within q :=
        fun x hx => hall x (List.mem_append_left _ hx)
      obtain ⟨q, hq, hrq⟩ := ih hmembers
      have hforward : r.start ≤ r.stop := hr.start_le_stop fun x hx => (hmembers x hx).1
      obtain ⟨-, p, hp, hnext⟩ := hall next (List.mem_append_right _ List.mem_cons_self)
      refine ⟨q, hq, hrq.extend ?_⟩
      rcases eq_or_apart hapart hq hp with rfl | hqp | hpq
      · exact hnext.2
      · -- the gap between the outer ranges is too wide for the join
        have hclose := joins_iff.1 hj
        obtain ⟨hover, hfar⟩ := hqp
        have hrstop := hrq.2
        have hstart := hnext.1
        have hwider := Int.add_le_add_left hwide r.stop.nanos
        rw [Instant.lt_iff] at hover
        rw [Instant.le_iff] at hclose hrstop hstart
        omega
      · -- the next range is over before the growing one starts
        have hover : next.stop ≤ q.start := Int.le_of_lt (Int.lt_of_le_of_lt hnext.2 hpq.1)
        exact Instant.le_trans hover (Instant.le_trans hrq.1 (Instant.le_trans hforward hrq.2))

/-- Merging ranges that lie within others, across gaps that are no wider, gives ranges that lie
within what the others are merged to. -/
theorem exists_within_merge {wide : Span} (hwide : gap ≤ wide) {ranges others : List Range}
    (hall : ∀ r ∈ ranges, r.start ≤ r.stop ∧ ∃ q ∈ others, r.Within q) {m : Range}
    (hm : m ∈ merge gap ranges) : ∃ q ∈ merge wide others, m.Within q := by
  obtain ⟨members, hjoined, hpart⟩ := exists_joined_of_mem_mergeWith hm
  refine hjoined.exists_within hwide (pairwise_merge_apart wide others) fun r hr => ?_
  obtain ⟨hforward, q, hq, hrq⟩ := hall r (List.mem_mergeSort.1 (hpart.subset hr))
  obtain ⟨p, hp, hqp⟩ := exists_within_mergeWith hq
  exact ⟨hforward, p, hp, hrq.trans hqp⟩

end Telematics.Range
