import Telematics.Proofs.SampleOrder
import Telematics.Source.Log

/-!
# What a log answers

Bounds and order of the answers of a log: samples and changes of state are ascending and lie in the
range that was asked for, and the changes are those of the whole history (`changes_eq_filter`),
because a log carries the state across the start of a read. A window that is answered holds a row
that counts for the question, starts with the bucket of that row and is as long as was asked for.
-/

set_option autoImplicit false

namespace Telematics.Log

variable {token : TokenId} {signal : String} {within : Range}

/-! ## Samples -/

/-- The rows of a signal are ascending. -/
theorem ascending_rows (log : Log) (token : TokenId) (signal : String) :
    Series.Ascending (log.rows token signal) :=
  Series.ascending_mergeSort _

/-- The samples that a log answers are ascending. -/
theorem ascending_levels (log : Log) (token : TokenId) (signal : String) (within : Range) :
    Series.Ascending (log.levels token signal within) :=
  (log.ascending_rows token signal).sublist List.filter_sublist

/-- The samples that a log answers lie in the range. -/
theorem time_of_mem_levels {log : Log} {s : Sample Float}
    (hs : s ∈ log.levels token signal within) : within.start ≤ s.time ∧ s.time ≤ within.stop := by
  rw [levels, List.mem_filter, Bool.and_eq_true, decide_eq_true_eq, decide_eq_true_eq] at hs
  exact hs.2

/-- The rows of a log of one signal that arrived in order. -/
theorem rows_eq_map {log : Log} (hall : ∀ r ∈ log.records, r.token = token ∧ r.name = signal)
    (hascending : log.records.Pairwise fun a b => a.time ≤ b.time) :
    log.rows token signal = log.records.map fun r => ⟨r.time, r.value⟩ := by
  have hfilter : (log.records.filter fun r => r.token == token && r.name == signal) =
      log.records := by
    refine List.filter_eq_self.2 fun r hr => ?_
    rw [Bool.and_eq_true, beq_iff_eq, beq_iff_eq]
    exact hall r hr
  rw [rows, hfilter]
  refine List.mergeSort_of_pairwise (List.pairwise_map.2 (hascending.imp fun h => ?_))
  exact decide_eq_true h

/-- The samples of such a log in a range that all its rows lie in. -/
theorem levels_eq_map {log : Log} (hall : ∀ r ∈ log.records, r.token = token ∧ r.name = signal)
    (hascending : log.records.Pairwise fun a b => a.time ≤ b.time)
    (hwithin : ∀ r ∈ log.records, within.start ≤ r.time ∧ r.time ≤ within.stop) :
    log.levels token signal within = log.records.map fun r => ⟨r.time, r.value⟩ := by
  rw [levels, rows_eq_map hall hascending]
  refine List.filter_eq_self.2 fun s hs => ?_
  obtain ⟨r, hr, rfl⟩ := List.mem_map.1 hs
  rw [Bool.and_eq_true, decide_eq_true_eq, decide_eq_true_eq]
  exact hwithin r hr

/-! ## Changes of state -/

/-- The changes over some rows, from a state on: each row with a value other than the one before. -/
def transitions (state : Float) (samples : List (Sample Float)) : List StateChange :=
  ((state :: samples.map Sample.value).zip samples).filterMap fun (before, s) =>
    if s.value != before then some ⟨s.time, s.value, before⟩ else none

/-- The state after some rows. -/
def stateAfter (state : Float) (samples : List (Sample Float)) : Float :=
  (samples.getLast?.map Sample.value).getD state

/-- The changes of the whole history of a signal. -/
def history (log : Log) (token : TokenId) (signal : String) : List StateChange :=
  transitions StateChange.unknownState (log.rows token signal)

theorem transitions_cons (state : Float) (s : Sample Float) (rest : List (Sample Float)) :
    transitions state (s :: rest) =
      if (s.value == state) = true then transitions s.value rest
      else ⟨s.time, s.value, state⟩ :: transitions s.value rest := by
  rw [transitions, List.map_cons, List.zip_cons_cons, List.filterMap_cons]
  by_cases h : (s.value == state) = true
  · simp only [bne, h, Bool.not_true, Bool.false_eq_true, if_true, if_false]
    rfl
  · simp only [bne, h, Bool.not_false, if_true, if_false, Bool.false_eq_true]
    rfl

theorem stateAfter_cons (state : Float) (s : Sample Float) (rest : List (Sample Float)) :
    stateAfter state (s :: rest) = stateAfter s.value rest :=
  Series.getLast?_map_getD_cons Sample.value s rest state

/-- Changes over rows in two parts go on from the state after the first part. -/
theorem transitions_append (state : Float) (early late : List (Sample Float)) :
    transitions state (early ++ late) =
      transitions state early ++ transitions (stateAfter state early) late := by
  induction early generalizing state with
  | nil => rfl
  | cons s rest ih =>
      rw [List.cons_append, transitions_cons, transitions_cons, stateAfter_cons, ih s.value]
      split
      · rfl
      · rfl

/-- Changes are found at the times of rows, at most one for each. -/
theorem times_transitions_sublist (state : Float) (samples : List (Sample Float)) :
    ((transitions state samples).map StateChange.time).Sublist (samples.map Sample.time) := by
  induction samples generalizing state with
  | nil => exact List.Sublist.refl _
  | cons s rest ih =>
      rw [transitions_cons]
      split
      · exact (ih s.value).cons s.time
      · exact (ih s.value).cons_cons s.time

theorem exists_time_of_mem_transitions {state : Float} {samples : List (Sample Float)}
    {c : StateChange} (hc : c ∈ transitions state samples) : ∃ s ∈ samples, s.time = c.time :=
  List.mem_map.1 ((times_transitions_sublist state samples).subset (List.mem_map_of_mem hc))

/-- Changes over ascending rows are ascending. -/
theorem ascending_transitions {samples : List (Sample Float)} (hsorted : Series.Ascending samples)
    (state : Float) : (transitions state samples).Pairwise fun a b => a.time ≤ b.time :=
  List.pairwise_map.1 ((List.pairwise_map.2 hsorted).sublist
    (times_transitions_sublist state samples))

/-- The changes over the rows up to an instant are the changes up to then. -/
theorem transitions_upTo {samples : List (Sample Float)} (hsorted : Series.Ascending samples)
    (state : Float) (t : Instant) :
    transitions state (Series.upTo t samples) =
      (transitions state samples).filter fun c => decide (c.time ≤ t) := by
  have hlater : ∀ s ∈ samples.dropWhile (fun s => decide (s.time ≤ t)), ¬ s.time ≤ t := by
    rw [Series.dropWhile_eq_filter_of_pairwise]
    · intro s hs
      simpa using (List.mem_filter.1 hs).2
    · apply hsorted.imp
      intro a b hab hb
      rw [decide_eq_true_eq] at hb ⊢
      exact Instant.le_trans hab hb
  have hsplit : Series.upTo t samples ++ samples.dropWhile (fun s => decide (s.time ≤ t)) =
      samples := List.takeWhile_append_dropWhile
  conv => rhs; rw [← hsplit, transitions_append, List.filter_append]
  rw [List.filter_eq_self.2, List.filter_eq_nil_iff.2, List.append_nil]
  · intro c hc hle
    obtain ⟨s, hs, htime⟩ := exists_time_of_mem_transitions hc
    exact hlater s hs (htime ▸ of_decide_eq_true hle)
  · intro c hc
    obtain ⟨s, hs, htime⟩ := exists_time_of_mem_transitions hc
    exact decide_eq_true (htime ▸ ((Series.mem_upTo_iff hsorted).1 hs).2)

/-- A walk reports the changes from its start on. -/
theorem changesAfter_eq_filter (start : Instant) (state : Float)
    (samples : List (Sample Float)) :
    changesAfter start state samples =
      (transitions state samples).filter fun c => decide (start ≤ c.time) := by
  induction samples generalizing state with
  | nil => rfl
  | cons s rest ih =>
      rw [changesAfter, transitions_cons, ih s.value]
      by_cases hsame : (s.value == state) = true
      · simp [bne, hsame]
      · by_cases hstart : start ≤ s.time
        · simp [bne, hsame, hstart]
        · simp [hsame, hstart]

/-- A log answers the changes of the whole history that lie in the range: it carries the state
across the start of the read. -/
theorem changes_eq_filter (log : Log) (token : TokenId) (signal : String) (within : Range) :
    log.changes token signal within = (log.history token signal).filter fun c =>
      decide (within.start ≤ c.time) && decide (c.time ≤ within.stop) := by
  rw [changes, changesAfter_eq_filter, transitions_upTo (log.ascending_rows _ _),
    List.filter_filter]
  rfl

/-- The changes that a log answers are ascending. -/
theorem ascending_changes (log : Log) (token : TokenId) (signal : String) (within : Range) :
    (log.changes token signal within).Pairwise fun a b => a.time ≤ b.time := by
  rw [changes_eq_filter]
  exact (ascending_transitions (log.ascending_rows token signal) _).sublist List.filter_sublist

/-- The changes that a log answers lie in the range. -/
theorem time_of_mem_changes {log : Log} {c : StateChange}
    (hc : c ∈ log.changes token signal within) : within.start ≤ c.time ∧ c.time ≤ within.stop := by
  rw [changes_eq_filter, List.mem_filter, Bool.and_eq_true, decide_eq_true_eq,
    decide_eq_true_eq] at hc
  exact hc.2

/-! ## Windows -/

/-- The bucket of an instant is the window around it. -/
theorem bucket_le {n : Int} (hn : 0 < n) (t : Instant) :
    (Instant.ofSeconds (bucket n t)).nanos ≤ t.nanos ∧
      t.nanos < (Instant.ofSeconds (bucket n t)).nanos + Span.seconds n := by
  have hlow : t.second / n * n ≤ t.second := Int.ediv_mul_le _ (by omega)
  have hhigh : t.second < (t.second / n + 1) * n := Int.lt_ediv_add_one_mul_self _ hn
  rw [Int.add_mul, Int.one_mul] at hhigh
  have hsecond : t.second = t.nanos / 1000000000 := rfl
  show t.second / n * n * 1000000000 ≤ t.nanos ∧
    t.nanos < t.second / n * n * 1000000000 + n * 1000000000
  omega

/-- A group of rows is not empty, and its rows have the bucket that it stands for. -/
theorem mem_gather {n b : Int} {rows group : List Record} (h : (b, group) ∈ gather n rows) :
    group ≠ [] ∧ ∀ r ∈ group, r ∈ rows ∧ bucket n r.time = b := by
  induction rows generalizing b group with
  | nil => exact absurd h List.not_mem_nil
  | cons r rest ih =>
      have hlater : (b, group) ∈ gather n rest →
          group ≠ [] ∧ ∀ x ∈ group, x ∈ r :: rest ∧ bucket n x.time = b := by
        intro hmem
        obtain ⟨hne, hall⟩ := ih hmem
        exact ⟨hne, fun x hx => ⟨List.mem_cons_of_mem _ (hall x hx).1, (hall x hx).2⟩⟩
      have hfirst : (b, group) = (bucket n r.time, [r]) →
          group ≠ [] ∧ ∀ x ∈ group, x ∈ r :: rest ∧ bucket n x.time = b := by
        intro heq
        obtain ⟨rfl, rfl⟩ := Prod.mk.inj heq
        refine ⟨List.cons_ne_nil _ _, fun x hx => ?_⟩
        rw [List.mem_singleton.1 hx]
        exact ⟨List.mem_cons_self, rfl⟩
      rw [gather] at h
      split at h
      · exact hfirst (List.mem_singleton.1 h)
      · rename_i b' group' groups heq
        split at h
        · rename_i hb
          rcases List.mem_cons.1 h with hmem | hmem
          · obtain ⟨rfl, rfl⟩ := Prod.mk.inj hmem
            obtain ⟨-, hall⟩ := ih (heq ▸ List.mem_cons_self)
            refine ⟨List.cons_ne_nil _ _, fun x hx => ?_⟩
            rcases List.mem_cons.1 hx with rfl | hx
            · exact ⟨List.mem_cons_self, hb.symm⟩
            · exact ⟨List.mem_cons_of_mem _ (hall x hx).1, (hall x hx).2⟩
          · exact hlater (heq ▸ List.mem_cons_of_mem _ hmem)
        · rcases List.mem_cons.1 h with hmem | hmem
          · exact hfirst hmem
          · exact hlater (heq ▸ hmem)

/-- An answered window is the bucket of a row that counts for the question. -/
theorem exists_row_of_mem_windows {log : Log} {query : WindowQuery} {w : Window}
    (hw : w ∈ log.windows token query) :
    ∃ r ∈ log.records, counts token query r = true ∧
      w.start = Instant.ofSeconds (bucket query.windowSeconds r.time) ∧
      w.stop = w.start + Span.seconds query.windowSeconds := by
  rw [windows, List.mem_filterMap] at hw
  obtain ⟨⟨b, group⟩, hgroup, hw⟩ := hw
  obtain ⟨hne, hall⟩ := mem_gather hgroup
  obtain ⟨r, later, rfl⟩ := List.exists_cons_of_ne_nil hne
  obtain ⟨hr, hb⟩ := hall r List.mem_cons_self
  rw [List.mem_mergeSort, List.mem_filter] at hr
  refine ⟨r, hr.1, hr.2, ?_⟩
  simp only at hw
  split at hw
  · rw [window?] at hw
    split at hw
    · obtain rfl := Option.some.inj hw
      exact ⟨by rw [hb], rfl⟩
    · exact absurd hw (by simp)
  · exact absurd hw (by simp)

/-- An answered window holds an instant of the asked range. -/
theorem bounds_of_mem_windows {log : Log} {query : WindowQuery} {w : Window}
    (hn : 0 < query.windowSeconds) (hw : w ∈ log.windows token query) :
    w.stop.nanos = w.start.nanos + Span.seconds query.windowSeconds ∧
      w.start < query.within.stop ∧ query.within.start < w.stop := by
  obtain ⟨r, -, hcounts, hstart, hstop⟩ := exists_row_of_mem_windows hw
  obtain ⟨hlow, hhigh⟩ := bucket_le hn r.time
  simp only [counts, Bool.and_eq_true, decide_eq_true_eq] at hcounts
  obtain ⟨⟨⟨-, hfrom⟩, hto⟩, -⟩ := hcounts
  rw [← hstart] at hlow hhigh
  refine ⟨by rw [hstop, Instant.nanos_add], Int.lt_of_le_of_lt hlow hto, ?_⟩
  rw [hstop]
  exact Int.lt_of_le_of_lt hfrom hhigh

end Telematics.Log
