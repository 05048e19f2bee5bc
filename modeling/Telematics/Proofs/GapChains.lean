import Mathlib.Data.List.Chain
import Telematics.Proofs.Merging

/-!
# Chains of ranges

Ranges in order that are merged across every short gap are split into chains: inside a chain the
gaps are at most so long, and between two chains they are longer. `Range.Chains` says what the
chains of a list of ranges are, and `exists_chains_merge` that merging gives the range from the
first to the last member of every chain.
-/

set_option autoImplicit false

namespace Telematics.Range

variable {gap : Span}

/-- The range from the start of the first to the stop of the last of some ranges. -/
def hull? : List Range → Option Range
  | [] => none
  | r :: later => some ⟨r.start, ((r :: later).getLast (List.cons_ne_nil _ _)).stop⟩

theorem hull?_eq_some {members : List Range} (h : members ≠ []) :
    hull? members = some ⟨(members.head h).start, (members.getLast h).stop⟩ := by
  cases members with
  | nil => exact absurd rfl h
  | cons r later => rfl

/-- The chains that ranges are split into by a longest gap. -/
structure Chains (gap : Span) (ranges : List Range) (chains : List (List Range)) : Prop where
  /-- Together they are the ranges, in order. -/
  flatten_eq : chains.flatten = ranges
  /-- No chain is empty. -/
  nil_notMem : [] ∉ chains
  /-- No gap in a chain is longer. -/
  inner : ∀ chain ∈ chains, chain.IsChain fun a b => a.gapTo b ≤ gap
  /-- Every gap between two chains is longer. -/
  outer : (chains.filterMap hull?).Pairwise fun a b => gap < a.gapTo b

/-- What grows from ranges whose stops are in order reaches from the first to the last of them, and
they are a chain. -/
theorem Joined.isChain (hgap : 0 ≤ gap) {members : List Range} {m : Range}
    (h : Joined gap (fun _ _ => true) members m)
    (hstops : members.Pairwise fun a b => a.stop ≤ b.stop) :
    hull? members = some m ∧ members.IsChain fun a b => a.gapTo b ≤ gap := by
  induction h with
  | single r => exact ⟨rfl, .singleton r⟩
  | @snoc members r next hr hj ih =>
      obtain ⟨hinit, -, hnext⟩ := List.pairwise_append.1 hstops
      obtain ⟨hhull, hchain⟩ := ih hinit
      have hne := hr.ne_nil
      rw [hull?_eq_some hne, Option.some.injEq] at hhull
      have hstart : r.start = (members.head hne).start := by rw [← hhull]
      have hstop : r.stop = (members.getLast hne).stop := by rw [← hhull]
      have hle : r.stop ≤ next.stop := by
        rw [hstop]
        exact hnext _ (List.getLast_mem hne) next List.mem_cons_self
      have hclose : r.gapTo next ≤ gap := by
        rw [gapTo, Instant.sub_le_iff]
        rcases joins_iff.1 hj with htouch | ⟨hshort, -⟩
        · exact Int.le_trans htouch (Int.le_add_of_nonneg_right hgap)
        · exact hshort
      constructor
      · rw [hull?_eq_some (by simp), List.head_append_of_ne_nil hne,
          List.getLast_append_singleton, extend, Instant.max_eq_right hle, hstart]
      · refine List.isChain_append.2 ⟨hchain, .singleton next, ?_⟩
        intro a ha b hb
        rw [List.getLast?_eq_some_getLast hne, Option.mem_some_iff] at ha
        rw [List.head?_cons, Option.mem_some_iff] at hb
        rw [gapTo, ← ha, ← hb, ← hstop]
        exact hclose

/-- Lists whose hulls are given one by one have these hulls. -/
theorem filterMap_hull?_eq {groups : List (List Range)} {hulls : List Range}
    (h : List.Forall₂ (fun group m => hull? group = some m) groups hulls) :
    groups.filterMap hull? = hulls := by
  induction h with
  | nil => rfl
  | cons hhull _ ih => rw [List.filterMap_cons, hhull, ih]

/-- Ranges in order are merged to the ranges that their chains reach over. -/
theorem exists_chains_merge (hgap : 0 ≤ gap) {ranges : List Range}
    (hsorted : ranges.Pairwise fun a b => a.start < b.start ∧ a.stop ≤ b.stop) :
    ∃ chains, Chains gap ranges chains ∧ chains.filterMap hull? = merge gap ranges := by
  have hsort : ranges.mergeSort notAfter = ranges := mergeSort_eq_self (hsorted.imp And.left)
  obtain ⟨groups, hflat, hall⟩ := exists_groups_mergeWith gap (fun _ _ => true) ranges
  rw [hsort] at hflat
  have hstops : groups.flatten.Pairwise fun a b => a.stop ≤ b.stop := by
    rw [hflat]
    exact hsorted.imp And.right
  -- each group is a chain, and what has grown from it is what it reaches over
  have hgroup : ∀ i (h₁ : i < groups.length) (h₂ : i < (merge gap ranges).length),
      hull? groups[i] = some (merge gap ranges)[i] ∧
        groups[i].IsChain fun a b => a.gapTo b ≤ gap := by
    intro i h₁ h₂
    refine (hall.get h₁ h₂).isChain hgap ?_
    exact (List.pairwise_flatten.1 hstops).1 _ (List.getElem_mem h₁)
  have hhulls : groups.filterMap hull? = merge gap ranges := by
    apply filterMap_hull?_eq
    exact List.forall₂_iff_get.2 ⟨hall.length_eq, fun i h₁ h₂ => (hgroup i h₁ h₂).1⟩
  refine ⟨groups, ⟨hflat, ?_, ?_, ?_⟩, hhulls⟩
  · intro hnil
    obtain ⟨i, hi, heq⟩ := List.mem_iff_getElem.1 hnil
    have hne := (hall.get hi (hall.length_eq ▸ hi)).ne_nil
    exact hne heq
  · intro group hmem
    obtain ⟨i, hi, rfl⟩ := List.mem_iff_getElem.1 hmem
    exact (hgroup i hi (hall.length_eq ▸ hi)).2
  · rw [hhulls]
    apply (pairwise_merge_apart gap ranges).imp
    rintro a b ⟨-, hfar⟩
    exact Int.lt_sub_left_of_add_lt hfar

end Telematics.Range
