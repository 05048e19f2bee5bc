import Mathlib.Data.List.Chain
import Mathlib.Data.List.Nodup
import Mathlib.Logic.Relation
import Telematics.Proofs.Merging

/-!
# Merged ranges are gap components

Two ranges are linked when they overlap, touch, or leave a gap that is short enough; they are
connected when linked ranges of a list lead from one to the other. `Range.Components` says which
lists of ranges, in order, are the components of this graph. Merging gives such a list, and there is
no other (`components_iff_eq_merge`): what ranges are merged to is told by the set of them, in
whatever order they come and however they overlap.

Lists of ranges that are apart are the same when the ranges of each lie within ranges of the other
(`eq_of_within_each`). So merging can be done in parts, and a shorter gap first does not change what
a longer one gives (`merge_merge_append`).
-/

set_option autoImplicit false

namespace Telematics.Range

variable {gap : Span} {ranges others out : List Range} {m : Range}

/-! ## Linked and connected ranges -/

/-- Two ranges overlap, touch, or leave a gap that is at most so long, whichever of them comes
first; a negative gap is as good as none. -/
def Linked (gap : Span) (a b : Range) : Prop :=
  a.gapTo b ≤ max gap 0 ∧ b.gapTo a ≤ max gap 0

/-- Linked ranges of a list lead from one range to another one. -/
def Connected (gap : Span) (ranges : List Range) : Range → Range → Prop :=
  Relation.ReflTransGen fun a b => a ∈ ranges ∧ b ∈ ranges ∧ Linked gap a b

theorem linked_iff {a b : Range} :
    Linked gap a b ↔ b.start.nanos ≤ a.stop.nanos + max gap 0 ∧
      a.start.nanos ≤ b.stop.nanos + max gap 0 := by
  rw [Linked, gapTo, gapTo, Instant.sub_le_iff, Instant.sub_le_iff]

theorem Connected.symm {a b : Range} (h : Connected gap ranges a b) : Connected gap ranges b a := by
  induction h with
  | refl => exact Relation.ReflTransGen.refl
  | tail _ hlink ih => exact ih.head ⟨hlink.2.1, hlink.1, hlink.2.2.2, hlink.2.2.1⟩

/-- The list holds the components of ranges, in order. -/
structure Components (gap : Span) (ranges out : List Range) : Prop where
  /-- Components are in the order of their starts. -/
  sorted : out.Pairwise fun a b => a.start ≤ b.start
  /-- Neighbours leave a gap that is longer than the one to be bridged, and longer than zero. -/
  apart : out.IsChain fun a b => a.Apart gap b
  /-- Each range lies within exactly one component. -/
  within : ∀ a ∈ ranges, ∃! m, m ∈ out ∧ a.Within m
  /-- A component starts with a range within it, and stops with one. -/
  ends : ∀ m ∈ out, (∃ a ∈ ranges, a.Within m ∧ a.start = m.start) ∧
    ∃ b ∈ ranges, b.Within m ∧ b.stop = m.stop
  /-- Two ranges lie within the same component exactly when they are connected. -/
  connected : ∀ a ∈ ranges, ∀ b ∈ ranges,
    (∃ m ∈ out, a.Within m ∧ b.Within m) ↔ Connected gap ranges a b

/-! ## Lists of ranges that are apart -/

/-- Ranges that are apart are different ones. -/
theorem nodup_of_apart (hforward : ∀ m ∈ out, m.start ≤ m.stop)
    (h : out.Pairwise fun a b => a.Apart gap b) : out.Nodup := by
  apply h.imp_of_mem
  rintro a b ha - hab rfl
  exact Instant.not_lt.2 (hforward a ha) hab.1

/-- Where neighbours are apart, all are. -/
theorem pairwise_apart_of_isChain (hforward : ∀ m ∈ out, m.start ≤ m.stop)
    (h : out.IsChain fun a b => a.Apart gap b) : out.Pairwise fun a b => a.Apart gap b := by
  induction out with
  | nil => exact List.Pairwise.nil
  | cons a rest ih =>
      have hrest := ih (fun m hm => hforward m (List.mem_cons_of_mem _ hm)) h.tail
      refine List.pairwise_cons.2 ⟨fun b hb => ?_, hrest⟩
      cases rest with
      | nil => exact absurd hb List.not_mem_nil
      | cons next rest =>
          have hnext : a.Apart gap next := (List.isChain_cons_cons.1 h).1
          rcases List.mem_cons.1 hb with rfl | hb
          · exact hnext
          · -- the neighbour stops no earlier than it starts
            have hforward' := hforward next (List.mem_cons_of_mem _ List.mem_cons_self)
            have hfar := (List.pairwise_cons.1 hrest).1 b hb
            simp only [Apart, Instant.lt_iff, Instant.le_iff] at hnext hfar hforward' ⊢
            omega

/-- A range that lies within one of another list, and back, is in that list. -/
theorem mem_of_within_each (hforward : ∀ m ∈ out, m.start ≤ m.stop)
    (h : out.Pairwise fun a b => a.Apart gap b) (hin : ∀ m ∈ out, ∃ p ∈ others, m.Within p)
    (hback : ∀ p ∈ others, ∃ m ∈ out, p.Within m) (hm : m ∈ out) : m ∈ others := by
  obtain ⟨p, hp, hmp⟩ := hin m hm
  obtain ⟨q, hq, hpq⟩ := hback p hp
  obtain rfl := eq_of_within h (hforward m hm) hm hq (Within.refl m) (hmp.trans hpq)
  rw [hmp.antisymm hpq]
  exact hp

/-- Lists of ranges that are apart are the same if each range of one lies within one of the
other. -/
theorem eq_of_within_each (hforward : ∀ m ∈ out, m.start ≤ m.stop)
    (hforward' : ∀ p ∈ others, p.start ≤ p.stop) (h : out.Pairwise fun a b => a.Apart gap b)
    (h' : others.Pairwise fun a b => a.Apart gap b) (hin : ∀ m ∈ out, ∃ p ∈ others, m.Within p)
    (hback : ∀ p ∈ others, ∃ m ∈ out, p.Within m) : out = others := by
  have hperm : out.Perm others := by
    apply (List.perm_ext_iff_of_nodup (nodup_of_apart hforward h)
      (nodup_of_apart hforward' h')).2
    intro m
    exact ⟨mem_of_within_each hforward h hin hback, mem_of_within_each hforward' h' hback hin⟩
  apply List.Perm.eq_of_pairwise _ h h' hperm
  intro a b ha hb hab hba
  have hforth : a.stop < a.stop :=
    Int.lt_of_lt_of_le hab.1 (Instant.le_trans (hforward' b hb) (Int.le_of_lt
      (Int.lt_of_lt_of_le hba.1 (hforward a ha))))
  exact absurd hforth (Int.lt_irrefl _)

/-! ## What merged ranges have grown from -/

/-- What grows from ranges starts with one of them and stops with one of them. -/
theorem Joined.ends {passes : Range → Range → Bool} {members : List Range}
    (h : Joined gap passes members m) :
    (∃ a ∈ members, a.start = m.start) ∧ ∃ b ∈ members, b.stop = m.stop := by
  induction h with
  | single r => exact ⟨⟨r, List.mem_cons_self, rfl⟩, r, List.mem_cons_self, rfl⟩
  | @snoc members r next _ _ ih =>
      obtain ⟨⟨a, ha, hstart⟩, b, hb, hstop⟩ := ih
      refine ⟨⟨a, List.mem_append_left _ ha, hstart⟩, ?_⟩
      rcases Int.le_total next.stop.nanos r.stop.nanos with hle | hle
      · refine ⟨b, List.mem_append_left _ hb, ?_⟩
        rw [stop_extend, Instant.max_eq_left hle, hstop]
      · refine ⟨next, List.mem_append_right _ List.mem_cons_self, ?_⟩
        rw [stop_extend, Instant.max_eq_right hle]

/-- Ranges in the order of their starts that are joined one after the other are connected: each is
linked to the one that stopped last before it. -/
theorem Joined.connected {members : List Range} (h : Joined gap (fun _ _ => true) members m)
    (hsorted : members.Pairwise fun a b => a.start ≤ b.start)
    (hsubset : members ⊆ ranges) (hforward : ∀ r ∈ ranges, r.start ≤ r.stop) :
    ∀ a ∈ members, ∀ b ∈ members, Connected gap ranges a b := by
  induction h with
  | single r =>
      intro a ha b hb
      rw [List.mem_singleton.1 ha, List.mem_singleton.1 hb]
      exact Relation.ReflTransGen.refl
  | @snoc members r next hr hj ih =>
      obtain ⟨hinit, -, hlater⟩ := List.pairwise_append.1 hsorted
      have hold : ∀ a ∈ members, ∀ b ∈ members, Connected gap ranges a b :=
        ih hinit fun x hx => hsubset (List.mem_append_left _ hx)
      have hnext : next ∈ ranges := hsubset (List.mem_append_right _ List.mem_cons_self)
      obtain ⟨-, last, hlast, hstop⟩ := hr.ends
      have hlink : Linked gap last next := by
        have hclose := joins_iff.1 hj
        have hstart := hlater last hlast next List.mem_cons_self
        have hnextForward := hforward next hnext
        rw [← hstop] at hclose
        rw [linked_iff]
        rw [Instant.le_iff] at hclose hstart hnextForward
        omega
      have hreach : ∀ a ∈ members, Connected gap ranges a next := fun a ha =>
        (hold a ha last hlast).tail ⟨hsubset (List.mem_append_left _ hlast), hnext, hlink⟩
      intro a ha b hb
      rcases List.mem_append.1 ha with ha | ha
      · rcases List.mem_append.1 hb with hb | hb
        · exact hold a ha b hb
        · rw [List.mem_singleton.1 hb]
          exact hreach a ha
      · rw [List.mem_singleton.1 ha]
        rcases List.mem_append.1 hb with hb | hb
        · exact (hreach b hb).symm
        · rw [List.mem_singleton.1 hb]
          exact Relation.ReflTransGen.refl

/-- A merged range has grown from exactly the ranges that lie within it. -/
theorem exists_members_of_mem_merge (hforward : ∀ r ∈ ranges, r.start ≤ r.stop)
    (hm : m ∈ merge gap ranges) :
    ∃ members, Joined gap (fun _ _ => true) members m ∧
      (members.Pairwise fun a b => a.start ≤ b.start) ∧
        ∀ r, r ∈ members ↔ r ∈ ranges ∧ r.Within m := by
  have hapart := pairwise_merge_apart gap ranges
  have hmerged : ∀ m ∈ merge gap ranges, m.start ≤ m.stop :=
    start_le_stop_of_mem_mergeWith hforward
  obtain ⟨groups, hflat, hall⟩ := exists_groups_mergeWith gap (fun _ _ => true) ranges
  have hsorted : ∀ group ∈ groups, group.Pairwise fun a b => a.start ≤ b.start := by
    have hflatten := pairwise_start_mergeSort ranges
    rw [← hflat] at hflatten
    exact (List.pairwise_flatten.1 hflatten).1
  have hmem : ∀ r, (∃ group ∈ groups, r ∈ group) ↔ r ∈ ranges := by
    intro r
    rw [← List.mem_flatten, hflat, List.mem_mergeSort]
  obtain ⟨i, hi, rfl⟩ := List.mem_iff_getElem.1 hm
  have hgroup : i < groups.length := by rw [hall.length_eq]; exact hi
  refine ⟨groups[i], hall.get hgroup hi, hsorted _ (List.getElem_mem hgroup), fun r => ?_⟩
  constructor
  · intro hr
    exact ⟨(hmem r).1 ⟨_, List.getElem_mem hgroup, hr⟩,
      (hall.get hgroup hi).within (hsorted _ (List.getElem_mem hgroup)) r hr⟩
  · rintro ⟨hr, hwithin⟩
    -- the group that the range is in gives a merged range around it, and there is only one
    obtain ⟨group, hmemGroup, hrGroup⟩ := (hmem r).2 hr
    obtain ⟨j, hj, rfl⟩ := List.mem_iff_getElem.1 hmemGroup
    have hj' : j < (merge gap ranges).length := by
      have hlength : j < (mergeWith gap (fun _ _ => true) ranges).length := by
        rw [← hall.length_eq]; exact hj
      exact hlength
    have hwithin' := (hall.get hj hj').within (hsorted _ (List.getElem_mem hj)) r hrGroup
    have heq : (merge gap ranges)[i] = (merge gap ranges)[j] :=
      eq_of_within hapart (hforward r hr) hm (List.getElem_mem hj') hwithin hwithin'
    obtain rfl : i = j := (nodup_of_apart hmerged hapart).getElem_inj_iff.1 heq
    exact hrGroup

/-! ## Merging gives the components -/

/-- Linked ranges lie within the same merged range. -/
theorem within_of_linked {a b : Range} (hb : b ∈ ranges) (hlink : Linked gap a b)
    (hm : m ∈ merge gap ranges) (ham : a.Within m) : b.Within m := by
  obtain ⟨p, hp, hbp⟩ : ∃ p ∈ merge gap ranges, b.Within p := exists_within_mergeWith hb
  rcases eq_or_apart (pairwise_merge_apart gap ranges) hm hp with rfl | hmp | hpm
  · exact hbp
  · -- the gap between two merged ranges is too long for a link
    simp only [linked_iff, Apart, Within, Instant.lt_iff, Instant.le_iff] at *
    omega
  · simp only [linked_iff, Apart, Within, Instant.lt_iff, Instant.le_iff] at *
    omega

/-- What ranges are merged to are their components. -/
theorem components_merge (hforward : ∀ r ∈ ranges, r.start ≤ r.stop) :
    Components gap ranges (merge gap ranges) := by
  have hapart := pairwise_merge_apart gap ranges
  have hmerged : ∀ m ∈ merge gap ranges, m.start ≤ m.stop :=
    start_le_stop_of_mem_mergeWith hforward
  constructor
  · apply hapart.imp_of_mem
    intro a b ha _ hab
    exact Int.le_of_lt (Int.lt_of_le_of_lt (hmerged a ha) hab.1)
  · exact hapart.isChain
  · intro a ha
    obtain ⟨m, hm, ham⟩ : ∃ m ∈ merge gap ranges, a.Within m := exists_within_mergeWith ha
    refine ⟨m, ⟨hm, ham⟩, ?_⟩
    rintro p ⟨hp, hap⟩
    exact eq_of_within hapart (hforward a ha) hp hm hap ham
  · intro m hm
    obtain ⟨members, hjoined, -, hmembers⟩ := exists_members_of_mem_merge hforward hm
    obtain ⟨⟨a, ha, hstart⟩, b, hb, hstop⟩ := hjoined.ends
    obtain ⟨ha, ham⟩ := (hmembers a).1 ha
    obtain ⟨hb, hbm⟩ := (hmembers b).1 hb
    exact ⟨⟨a, ha, ham, hstart⟩, b, hb, hbm, hstop⟩
  · intro a ha b hb
    constructor
    · rintro ⟨m, hm, ham, hbm⟩
      obtain ⟨members, hjoined, hsorted, hmembers⟩ := exists_members_of_mem_merge hforward hm
      have hsubset : members ⊆ ranges := fun r hr => ((hmembers r).1 hr).1
      exact hjoined.connected hsorted hsubset hforward a ((hmembers a).2 ⟨ha, ham⟩) b
        ((hmembers b).2 ⟨hb, hbm⟩)
    · intro hconnected
      obtain ⟨m, hm, ham⟩ : ∃ m ∈ merge gap ranges, a.Within m := exists_within_mergeWith ha
      refine ⟨m, hm, ham, ?_⟩
      -- along the links no range leaves the merged one
      induction hconnected with
      | refl => exact ham
      | tail _ hlink ih => exact within_of_linked hlink.2.1 hlink.2.2 hm (ih hlink.1)

/-- A component lies within one of any other list of components: its first and its last range are
connected. -/
theorem Components.exists_within (h : Components gap ranges out)
    (h' : Components gap ranges others) (hm : m ∈ out) : ∃ p ∈ others, m.Within p := by
  obtain ⟨⟨a, ha, ham, hstart⟩, b, hb, hbm, hstop⟩ := h.ends m hm
  obtain ⟨p, hp, hap, hbp⟩ :=
    (h'.connected a ha b hb).2 ((h.connected a ha b hb).1 ⟨m, hm, ham, hbm⟩)
  refine ⟨p, hp, ?_, ?_⟩
  · rw [← hstart]
    exact hap.1
  · rw [← hstop]
    exact hbp.2

/-- Components stop no earlier than they start. -/
theorem Components.start_le_stop (h : Components gap ranges out)
    (hforward : ∀ r ∈ ranges, r.start ≤ r.stop) : ∀ m ∈ out, m.start ≤ m.stop := by
  intro m hm
  obtain ⟨⟨a, ha, ham, -⟩, -⟩ := h.ends m hm
  exact Instant.le_trans ham.1 (Instant.le_trans (hforward a ha) ham.2)

/-- There is one list of components. -/
theorem Components.unique (h : Components gap ranges out) (h' : Components gap ranges others)
    (hforward : ∀ r ∈ ranges, r.start ≤ r.stop) : out = others :=
  eq_of_within_each (h.start_le_stop hforward) (h'.start_le_stop hforward)
    (pairwise_apart_of_isChain (h.start_le_stop hforward) h.apart)
    (pairwise_apart_of_isChain (h'.start_le_stop hforward) h'.apart)
    (fun _ hm => h.exists_within h' hm) fun _ hp => h'.exists_within h hp

/-- Components depend on the set of the ranges only. -/
theorem Components.of_mem_iff (h : Components gap ranges out)
    (hmem : ∀ r, r ∈ others ↔ r ∈ ranges) : Components gap others out := by
  have hconnected : Connected gap others = Connected gap ranges := by
    simp only [Connected, hmem]
  constructor
  · exact h.sorted
  · exact h.apart
  · simpa only [hmem] using h.within
  · simpa only [hmem] using h.ends
  · simpa only [hmem, hconnected] using h.connected

/-- What ranges are merged to depends on their set only. -/
theorem merge_eq_of_mem_iff (hforward : ∀ r ∈ ranges, r.start ≤ r.stop)
    (hmem : ∀ r, r ∈ others ↔ r ∈ ranges) : merge gap others = merge gap ranges := by
  have hforward' : ∀ r ∈ others, r.start ≤ r.stop := fun r hr => hforward r ((hmem r).1 hr)
  exact (components_merge hforward').unique ((components_merge hforward).of_mem_iff hmem) hforward'

/-- A negative gap bridges what no gap does. -/
theorem Components.of_max (h : Components (max gap 0) ranges out) : Components gap ranges out := by
  have hgap : max (max gap 0) 0 = max gap 0 := Int.max_eq_left (Int.le_max_right _ _)
  have hconnected : Connected (max gap 0) ranges = Connected gap ranges := by
    simp only [Connected, Linked, hgap]
  constructor
  · exact h.sorted
  · apply h.apart.imp
    rintro a b ⟨hover, hfar⟩
    exact ⟨hover, by omega⟩
  · exact h.within
  · exact h.ends
  · simpa only [hconnected] using h.connected

/-- Merging gives the components of ranges, and no other list is that; so it depends on the set of
the ranges only, and a negative gap is as good as none. -/
theorem components_iff_eq_merge (gap : Span) (hforward : ∀ r ∈ ranges, r.start ≤ r.stop) :
    (∀ out, Components gap ranges out ↔ out = merge gap ranges) ∧
      (∀ others, (∀ r, r ∈ others ↔ r ∈ ranges) → merge gap others = merge gap ranges) ∧
      merge (max gap 0) ranges = merge gap ranges := by
  have hcomponents : Components gap ranges (merge gap ranges) := components_merge hforward
  refine ⟨fun out => ⟨fun h => h.unique hcomponents hforward, ?_⟩,
    fun _ => merge_eq_of_mem_iff hforward, ?_⟩
  · rintro rfl
    exact hcomponents
  · exact (components_merge hforward).of_max.unique hcomponents hforward

/-- Ranges in the order of their starts: one within another, one without length, and two that are
farther off. -/
def straggling : List Range :=
  [⟨.ofSeconds 0, .ofSeconds 120⟩, ⟨.ofSeconds 30, .ofSeconds 60⟩,
    ⟨.ofSeconds 180, .ofSeconds 180⟩, ⟨.ofSeconds 300, .ofSeconds 360⟩,
    ⟨.ofSeconds 600, .ofSeconds 600⟩]

/-- What they are merged to across gaps of a minute. -/
def gathered : List Range :=
  [⟨.ofSeconds 0, .ofSeconds 180⟩, ⟨.ofSeconds 300, .ofSeconds 360⟩,
    ⟨.ofSeconds 600, .ofSeconds 600⟩]

theorem merge_straggling : merge (Span.seconds 60) straggling = gathered := by
  have hsorted : straggling.mergeSort notAfter = straggling :=
    mergeSort_eq_self (by decide)
  rw [merge, mergeWith, hsorted]
  decide

theorem components_straggling :
    (∀ r ∈ straggling, r.start ≤ r.stop) ∧ Components (Span.seconds 60) straggling gathered ∧
      (∀ r, r ∈ straggling.reverse ↔ r ∈ straggling) ∧
      merge (Span.seconds 60) straggling.reverse = gathered := by
  have hforward : ∀ r ∈ straggling, r.start ≤ r.stop := by decide
  have hmem : ∀ r, r ∈ straggling.reverse ↔ r ∈ straggling := fun _ => List.mem_reverse
  obtain ⟨hiff, hset, -⟩ := components_iff_eq_merge (Span.seconds 60) hforward
  refine ⟨hforward, (hiff gathered).2 merge_straggling.symm, hmem, ?_⟩
  rw [hset _ hmem, merge_straggling]

/-! ## Merging again -/

/-- Ranges that are apart are merged to themselves. -/
theorem merge_eq_self (hforward : ∀ r ∈ ranges, r.start ≤ r.stop)
    (h : ranges.Pairwise fun a b => a.Apart gap b) : merge gap ranges = ranges := by
  apply eq_of_within_each (start_le_stop_of_mem_mergeWith hforward) hforward
    (pairwise_merge_apart gap ranges) h
  · intro m hm
    obtain ⟨members, hjoined, hpart⟩ := exists_joined_of_mem_mergeWith hm
    refine hjoined.exists_within (Int.le_refl gap) h fun r hr => ?_
    have hmem : r ∈ ranges := List.mem_mergeSort.1 (hpart.subset hr)
    exact ⟨hforward r hmem, r, hmem, Within.refl r⟩
  · exact fun _ hr => exists_within_mergeWith hr

/-- Two lists of ranges are merged to the same if the ranges of each lie within what the other is
merged to. -/
theorem merge_eq_merge (hforward : ∀ r ∈ ranges, r.start ≤ r.stop)
    (hforward' : ∀ r ∈ others, r.start ≤ r.stop)
    (hin : ∀ r ∈ ranges, ∃ q ∈ merge gap others, r.Within q)
    (hback : ∀ r ∈ others, ∃ q ∈ merge gap ranges, r.Within q) :
    merge gap ranges = merge gap others := by
  have hmerged : ∀ m ∈ merge gap ranges, m.start ≤ m.stop :=
    start_le_stop_of_mem_mergeWith hforward
  have hmerged' : ∀ m ∈ merge gap others, m.start ≤ m.stop :=
    start_le_stop_of_mem_mergeWith hforward'
  -- what is merged already stays as it is
  have hself := merge_eq_self hmerged (pairwise_merge_apart gap ranges)
  have hself' := merge_eq_self hmerged' (pairwise_merge_apart gap others)
  apply eq_of_within_each hmerged hmerged' (pairwise_merge_apart gap ranges)
    (pairwise_merge_apart gap others)
  · intro m hm
    rw [← hself']
    exact exists_within_merge (Int.le_refl gap) (fun r hr => ⟨hforward r hr, hin r hr⟩) hm
  · intro m hm
    rw [← hself]
    exact exists_within_merge (Int.le_refl gap) (fun r hr => ⟨hforward' r hr, hback r hr⟩) hm

/-- Some of the ranges may be merged first, across gaps that are no longer. -/
theorem merge_merge_append_eq {short long : Span} (hle : short ≤ long)
    (hforward : ∀ r ∈ ranges ++ others, r.start ≤ r.stop) :
    merge long (merge short ranges ++ others) = merge long (ranges ++ others) := by
  have hranges : ∀ r ∈ ranges, r.start ≤ r.stop := fun r hr =>
    hforward r (List.mem_append_left _ hr)
  have hmerged : ∀ m ∈ merge short ranges, m.start ≤ m.stop :=
    start_le_stop_of_mem_mergeWith hranges
  refine merge_eq_merge ?_ hforward ?_ ?_
  · intro r hr
    rcases List.mem_append.1 hr with hr | hr
    · exact hmerged r hr
    · exact hforward r (List.mem_append_right _ hr)
  · intro r hr
    rcases List.mem_append.1 hr with hr | hr
    · -- what has grown across short gaps lies within what grows across long ones
      refine exists_within_merge hle (fun x hx => ⟨hranges x hx, x, ?_, Within.refl x⟩) hr
      exact List.mem_append_left _ hx
    · exact exists_within_mergeWith (List.mem_append_right _ hr)
  · intro r hr
    rcases List.mem_append.1 hr with hr | hr
    · obtain ⟨m, hm, hrm⟩ : ∃ m ∈ merge short ranges, r.Within m := exists_within_mergeWith hr
      obtain ⟨q, hq, hmq⟩ : ∃ q ∈ merge long (merge short ranges ++ others), m.Within q :=
        exists_within_mergeWith (List.mem_append_left _ hm)
      exact ⟨q, hq, hrm.trans hmq⟩
    · exact exists_within_mergeWith (List.mem_append_right _ hr)

/-- Across gaps that are no longer nothing is left to merge. -/
theorem merge_merge_of_le {short long : Span} (hle : short ≤ long)
    (hforward : ∀ r ∈ ranges, r.start ≤ r.stop) :
    merge short (merge long ranges) = merge long ranges := by
  apply merge_eq_self (start_le_stop_of_mem_mergeWith hforward)
  apply (pairwise_merge_apart long ranges).imp
  rintro a b ⟨hover, hfar⟩
  exact ⟨hover, Int.lt_of_le_of_lt (Int.add_le_add_left hle _) hfar⟩

/-- Merging is incremental and coarsening: some of the ranges may be merged first, and a shorter gap
before a longer one. So a second time changes nothing, and neither does a shorter gap after a longer
one. -/
theorem merge_merge_append {short long : Span} (hle : short ≤ long)
    (hforward : ∀ r ∈ ranges ++ others, r.start ≤ r.stop) :
    merge long (merge short ranges ++ others) = merge long (ranges ++ others) ∧
      merge long (merge long ranges) = merge long ranges ∧
      merge short (merge long ranges) = merge long ranges ∧
      merge long (merge short ranges) = merge long ranges := by
  have hranges : ∀ r ∈ ranges, r.start ≤ r.stop := fun r hr =>
    hforward r (List.mem_append_left _ hr)
  refine ⟨merge_merge_append_eq hle hforward, merge_merge_of_le (Int.le_refl _) hranges,
    merge_merge_of_le hle hranges, ?_⟩
  have happend : merge long (merge short ranges ++ []) = merge long (ranges ++ []) :=
    merge_merge_append_eq hle (by rwa [List.append_nil])
  rwa [List.append_nil, List.append_nil] at happend

/-- A range that comes later and bridges the time between the others. -/
def bridge : List Range := [⟨.ofSeconds 420, .ofSeconds 540⟩]

/-- All of them in the order of their starts. -/
def bridged : List Range :=
  [⟨.ofSeconds 0, .ofSeconds 180⟩, ⟨.ofSeconds 300, .ofSeconds 360⟩,
    ⟨.ofSeconds 420, .ofSeconds 540⟩, ⟨.ofSeconds 600, .ofSeconds 600⟩]

theorem merge_gathered_bridge :
    merge (Span.seconds 120) (gathered ++ bridge) = [⟨.ofSeconds 0, .ofSeconds 600⟩] := by
  have hperm : (gathered ++ bridge).Perm bridged := by decide
  have hsorted : bridged.mergeSort notAfter = bridged := mergeSort_eq_self (by decide)
  rw [merge_eq_of_mem_iff (by decide : ∀ r ∈ bridged, r.start ≤ r.stop) fun _ => hperm.mem_iff,
    merge, mergeWith, hsorted]
  decide

theorem merge_straggling_bridge :
    Span.seconds 60 ≤ Span.seconds 120 ∧ (∀ r ∈ straggling ++ bridge, r.start ≤ r.stop) ∧
      merge (Span.seconds 120) (straggling ++ bridge) = [⟨.ofSeconds 0, .ofSeconds 600⟩] ∧
      merge (Span.seconds 60) gathered = gathered ∧
      merge (Span.seconds 120) gathered = merge (Span.seconds 120) straggling := by
  have hle : Span.seconds 60 ≤ Span.seconds 120 := by decide
  have hforward : ∀ r ∈ straggling ++ bridge, r.start ≤ r.stop := by decide
  obtain ⟨hparts, -, -, hcoarser⟩ := merge_merge_append hle hforward
  obtain ⟨-, hagain, -, -⟩ := merge_merge_append (Int.le_refl (Span.seconds 60)) hforward
  rw [merge_straggling] at hparts hcoarser hagain
  exact ⟨hle, hforward, hparts.symm.trans merge_gathered_bridge, hagain, hcoarser⟩

end Telematics.Range
