import Telematics.Proofs.FloatOrder
import Telematics.Proofs.LogReads

/-!
# Changes of state as a change log

The changes that a log answers tell what became of a signal. They go on from one another
(`isChain_transitions`), and whoever replays them has, at any instant, the value of the last row
that was read by then (`getLast?_transitions`). Which row is the last one is said of the log itself,
without sorting (`LastRow`): of rows of one time it is the one that arrived last.

States are compared as numbers are, so that zeros of both signs are one state. What is no number
would differ from itself, and so the rows must be numbers (`faithful_changes`).
-/

set_option autoImplicit false

namespace Telematics.Log

open FloatOrder (IsNumber)

variable {log : Log} {token : TokenId} {signal : String} {state : Float}
  {samples : List (Sample Float)}

/-! ## Changes over some rows -/

/-- A change begins with the state that the one before it left. -/
def GoesOn (c d : StateChange) : Prop := (d.prevState == c.newState) = true

/-- A change is from one state to another one. -/
theorem newState_bne_prevState {c : StateChange} (hc : c ∈ transitions state samples) :
    (c.newState != c.prevState) = true := by
  rw [transitions, List.mem_filterMap] at hc
  obtain ⟨⟨before, s⟩, -, hc⟩ := hc
  obtain ⟨hne, hc⟩ := Option.ite_none_right_eq_some.1 hc
  obtain rfl := Option.some.inj hc
  exact hne

/-- Changes over rows go on from one another, and from any change that left the state equal to the
one they begin with. -/
theorem isChain_transitions (hnumbers : ∀ s ∈ samples, IsNumber s.value) {c : StateChange}
    (hstate : (state == c.newState) = true) : (c :: transitions state samples).IsChain GoesOn := by
  induction samples generalizing state c with
  | nil => exact .singleton c
  | cons s rest ih =>
      obtain ⟨hs, hrest⟩ := List.forall_mem_cons.1 hnumbers
      rw [transitions_cons]
      split
      · -- the row repeats the state, and so the next change begins with an equal one
        rename_i hsame
        exact ih hrest (FloatOrder.beq_trans hsame hstate)
      · have hself : (s.value == s.value) = true := FloatOrder.beq_refl hs
        exact .cons_cons hstate (ih hrest hself)

/-- The state that the last change leaves, or the state before if there is no change, is the state
after the rows. -/
theorem getLast?_transitions (hnumbers : ∀ s ∈ samples, IsNumber s.value) {before : Float}
    (hstate : (before == state) = true) :
    (((transitions state samples).getLast?.map StateChange.newState).getD before ==
      stateAfter state samples) = true := by
  induction samples generalizing state before with
  | nil => exact hstate
  | cons s rest ih =>
      obtain ⟨hs, hrest⟩ := List.forall_mem_cons.1 hnumbers
      rw [transitions_cons, stateAfter_cons]
      split
      · rename_i hsame
        exact ih hrest (FloatOrder.beq_trans hstate (FloatOrder.beq_symm hsame))
      · have hself : (s.value == s.value) = true := FloatOrder.beq_refl hs
        rw [Series.getLast?_map_getD_cons]
        exact ih hrest hself

/-! ## The last row -/

/-- A row is the last one of a signal by an instant: of the rows that are read by then none is read
later, nor at the same time if it arrived later. -/
def LastRow (log : Log) (token : TokenId) (signal : String) (t : Instant) (r : Record) : Prop :=
  ∃ i : Nat, log.records[i]? = some r ∧ (r.token = token ∧ r.name = signal ∧ r.time ≤ t) ∧
    ∀ (j : Nat) (x : Record), log.records[j]? = some x →
      x.token = token → x.name = signal → x.time ≤ t →
        x.time < r.time ∨ x.time = r.time ∧ j ≤ i

/-- There is at most one last row. -/
theorem LastRow.unique {t : Instant} {r r' : Record} (h : log.LastRow token signal t r)
    (h' : log.LastRow token signal t r') : r = r' := by
  obtain ⟨i, hi, ⟨htoken, hname, htime⟩, hlast⟩ := h
  obtain ⟨j, hj, ⟨htoken', hname', htime'⟩, hlast'⟩ := h'
  have hij : j = i := by
    have hle := hlast j r' hj htoken' hname' htime'
    have hge := hlast' i r hi htoken hname htime
    rcases hle with hlt | ⟨heq, hji⟩
    · rcases hge with hgt | ⟨heq, -⟩
      · exact absurd (Int.lt_trans hlt hgt) (Int.lt_irrefl _)
      · exact absurd (heq ▸ hlt) (Int.lt_irrefl _)
    · rcases hge with hgt | ⟨-, hij⟩
      · exact absurd (heq ▸ hgt) (Int.lt_irrefl _)
      · exact Nat.le_antisymm hji hij
  rw [hij, hi] at hj
  exact Option.some.inj hj

theorem mem_rows_of_mem {x : Record} (hx : x ∈ log.records) (htoken : x.token = token)
    (hname : x.name = signal) : (⟨x.time, x.value⟩ : Sample Float) ∈ log.rows token signal :=
  List.mem_mergeSort.2 (List.mem_map.2 ⟨x, List.mem_filter.2 ⟨hx, by simp [htoken, hname]⟩, rfl⟩)

/-- The last of the sorted rows up to an instant is the last row by then. -/
theorem exists_lastRow {t : Instant} {s : Sample Float}
    (hs : (Series.upTo t (log.rows token signal)).getLast? = some s) :
    ∃ r, log.LastRow token signal t r ∧ r.value = s.value := by
  have hsorted := log.ascending_rows token signal
  obtain ⟨htime, hmax⟩ := Series.time_le_of_getLast?_upTo hsorted hs
  -- of the rows of its time it was the last one before they were sorted, too
  have hlast := Series.getLast?_filter_time hsorted hs
  rw [rows, Series.filter_time_mergeSort, List.filter_map, List.getLast?_map,
    Option.map_eq_some_iff, List.filter_filter] at hlast
  obtain ⟨r, hr, rfl⟩ := hlast
  obtain ⟨hkeeps, before, after, hsplit, hafter⟩ := Series.exists_split_of_getLast?_filter hr
  simp only [Function.comp_apply, decide_true, Bool.true_and, Bool.and_eq_true, beq_iff_eq]
    at hkeeps
  refine ⟨r, ⟨before.length, by simp [hsplit], ⟨hkeeps.1, hkeeps.2, htime⟩, ?_⟩, rfl⟩
  intro j x hj htoken hname hxt
  have hle : x.time ≤ r.time :=
    hmax _ (mem_rows_of_mem (List.mem_of_getElem? hj) htoken hname) hxt
  rcases Int.lt_or_eq_of_le hle with hlt | heq
  · exact .inl hlt
  · have heq : x.time = r.time := Instant.eq_of_nanos_eq heq
    refine .inr ⟨heq, ?_⟩
    by_contra hlater
    have hx : x ∈ after := by
      obtain ⟨k, rfl⟩ : ∃ k, j = before.length + (k + 1) := ⟨j - before.length - 1, by omega⟩
      rw [hsplit, List.getElem?_append_right (Nat.le_add_right _ _), Nat.add_sub_cancel_left,
        List.getElem?_cons_succ] at hj
      exact List.mem_of_getElem? hj
    have hfails := hafter x hx
    simp [heq, htoken, hname] at hfails

/-! ## Answers of a log -/

/-- The changes up to an instant are those of the range that ends then. -/
theorem filter_changes_upTo (log : Log) (token : TokenId) (signal : String)
    {start stop t : Instant} (h : t ≤ stop) :
    ((log.changes token signal ⟨start, stop⟩).filter fun c => decide (c.time ≤ t)) =
      log.changes token signal ⟨start, t⟩ := by
  rw [changes_eq_filter, changes_eq_filter, List.filter_filter]
  apply List.filter_congr
  intro c _
  by_cases htime : c.time ≤ t
  · simp [htime, Instant.le_trans htime h]
  · simp [htime]

/-- The changes of a range are the last ones of those up to its end. -/
theorem changes_isSuffix (log : Log) (token : TokenId) (signal : String) (within : Range) :
    log.changes token signal within <:+
      transitions StateChange.unknownState
        (Series.upTo within.stop (log.rows token signal)) := by
  have hsorted : Series.Ascending (Series.upTo within.stop (log.rows token signal)) :=
    (log.ascending_rows token signal).sublist (List.takeWhile_sublist _)
  have hdrop : log.changes token signal within =
      (transitions StateChange.unknownState
        (Series.upTo within.stop (log.rows token signal))).dropWhile fun c =>
          decide (c.time < within.start) := by
    rw [changes, changesAfter_eq_filter, Series.dropWhile_eq_filter_of_pairwise]
    · apply List.filter_congr
      intro c _
      rw [← decide_not, decide_eq_decide, Instant.not_lt]
    · apply (ascending_transitions hsorted _).imp
      intro c d hcd hd
      rw [decide_eq_true_eq] at hd ⊢
      exact Int.lt_of_le_of_lt hcd hd
  rw [hdrop]
  exact List.dropWhile_suffix _

theorem exists_mem_records {s : Sample Float} (hs : s ∈ log.rows token signal) :
    ∃ r ∈ log.records, r.time = s.time ∧ r.value = s.value := by
  obtain ⟨r, hr, rfl⟩ := List.mem_map.1 (List.mem_mergeSort.1 hs)
  exact ⟨r, (List.mem_filter.1 hr).1, rfl, rfl⟩

theorem isNumber_of_mem_upTo (token : TokenId) (signal : String)
    (hnumbers : ∀ r ∈ log.records, IsNumber r.value) (t : Instant) (s : Sample Float)
    (hs : s ∈ Series.upTo t (log.rows token signal)) : IsNumber s.value := by
  obtain ⟨r, hr, -, hvalue⟩ := exists_mem_records ((List.takeWhile_sublist _).subset hs)
  exact hvalue ▸ hnumbers r hr

theorem unknownState_beq_self :
    (StateChange.unknownState == StateChange.unknownState) = true := by decide

/-- The changes of a range go on from one another. -/
theorem isChain_changes (hnumbers : ∀ r ∈ log.records, IsNumber r.value) (within : Range) :
    (log.changes token signal within).IsChain GoesOn := by
  have hrows := isNumber_of_mem_upTo token signal hnumbers within.stop
  have hchain := isChain_transitions hrows (c := ⟨within.start, StateChange.unknownState,
    StateChange.unknownState⟩) unknownState_beq_self
  exact hchain.tail.suffix (log.changes_isSuffix token signal within)

/-- The last change of a range leaves the value of the last row by its end. -/
theorem exists_lastRow_of_getLast?_changes (hnumbers : ∀ r ∈ log.records, IsNumber r.value)
    {within : Range} {c : StateChange}
    (hc : (log.changes token signal within).getLast? = some c) :
    ∃ r, log.LastRow token signal within.stop r ∧ (c.newState == r.value) = true := by
  have hrows := isNumber_of_mem_upTo token signal hnumbers within.stop
  have hstate := getLast?_transitions hrows unknownState_beq_self
  obtain ⟨earlier, hsuffix⟩ := log.changes_isSuffix token signal within
  rw [← hsuffix, List.getLast?_append, hc] at hstate
  cases hlast : (Series.upTo within.stop (log.rows token signal)).getLast? with
  | none =>
      -- without rows there are no changes
      rw [List.getLast?_eq_none_iff.1 hlast] at hsuffix
      rw [(List.append_eq_nil_iff.1 hsuffix).2] at hc
      exact absurd hc (by simp)
  | some s =>
      obtain ⟨r, hr, hvalue⟩ := exists_lastRow hlast
      refine ⟨r, hr, ?_⟩
      rw [stateAfter, hlast] at hstate
      rw [hvalue]
      exact hstate

/-- An answer tells the changes of a signal in a range, both ends included. -/
structure Faithful (log : Log) (token : TokenId) (signal : String) (within : Range)
    (answer : List StateChange) : Prop where
  ascending : answer.Pairwise fun c d => c.time ≤ d.time
  changed : ∀ c ∈ answer, (c.newState != c.prevState) = true
  goesOn : answer.IsChain GoesOn
  /-- It is the part of the whole history that lies in the range. -/
  restricted : answer = (log.history token signal).filter fun c =>
    decide (within.start ≤ c.time) && decide (c.time ≤ within.stop)
  /-- So it is the part of the answer for any range that reaches over all rows. -/
  narrowed : ∀ whole : Range, (∀ r ∈ log.records, whole.start ≤ r.time ∧ r.time ≤ whole.stop) →
    answer = (log.changes token signal whole).filter fun c =>
      decide (within.start ≤ c.time) && decide (c.time ≤ within.stop)
  /-- The last change by an instant leaves the value of the last row by then. -/
  replayed : ∀ t, t ≤ within.stop → ∀ c,
    (answer.filter fun c => decide (c.time ≤ t)).getLast? = some c →
      ∃ r, (∀ x, log.LastRow token signal t x ↔ x = r) ∧ (c.newState == r.value) = true

/-- A range that reaches over all rows has all changes. -/
theorem changes_eq_history {whole : Range}
    (hwhole : ∀ r ∈ log.records, whole.start ≤ r.time ∧ r.time ≤ whole.stop) :
    log.changes token signal whole = log.history token signal := by
  rw [changes_eq_filter, List.filter_eq_self]
  intro c hc
  obtain ⟨s, hs, htime⟩ := exists_time_of_mem_transitions hc
  obtain ⟨r, hr, hrtime, -⟩ := exists_mem_records hs
  rw [← htime, ← hrtime, Bool.and_eq_true, decide_eq_true_eq, decide_eq_true_eq]
  exact hwhole r hr

/-- What a log answers is a faithful change log, if the values of its rows are numbers. -/
theorem faithful_changes (hnumbers : ∀ r ∈ log.records, IsNumber r.value) (within : Range) :
    ∃ answer, log.source.reply (.changes token signal within) = .answer answer ∧
      log.Faithful token signal within answer := by
  refine ⟨log.changes token signal within, rfl, log.ascending_changes token signal within, ?_,
    isChain_changes hnumbers within, log.changes_eq_filter token signal within, ?_, ?_⟩
  · intro c hc
    rw [changes_eq_filter] at hc
    exact newState_bne_prevState (List.mem_filter.1 hc).1
  · intro whole hwhole
    rw [changes_eq_history hwhole]
    exact log.changes_eq_filter token signal within
  · intro t ht c hc
    rw [filter_changes_upTo log token signal ht] at hc
    obtain ⟨r, hr, hvalue⟩ := exists_lastRow_of_getLast?_changes hnumbers hc
    refine ⟨r, fun x => ⟨fun hx => hx.unique hr, ?_⟩, hvalue⟩
    rintro rfl
    exact hr

/-- Rows of a gear, the first of which arrives before earlier ones. The gear is unknown at first,
and twice two rows are of one time. -/
def gearLog : Log :=
  ⟨[⟨42, "gear", .ofSeconds 30, 2.0⟩, ⟨42, "gear", .ofSeconds 0, -1.0⟩,
    ⟨42, "gear", .ofSeconds 10, 1.0⟩, ⟨7, "gear", .ofSeconds 15, 5.0⟩,
    ⟨42, "gear", .ofSeconds 20, 1.0⟩, ⟨42, "gear", .ofSeconds 20, 0.0⟩,
    ⟨42, "gear", .ofSeconds 25, -0.0⟩, ⟨42, "gear", .ofSeconds 30, 3.0⟩]⟩

theorem rows_gearLog :
    gearLog.rows 42 "gear" =
      [⟨.ofSeconds 0, -1.0⟩, ⟨.ofSeconds 10, 1.0⟩, ⟨.ofSeconds 20, 1.0⟩, ⟨.ofSeconds 20, 0.0⟩,
        ⟨.ofSeconds 25, -0.0⟩, ⟨.ofSeconds 30, 2.0⟩, ⟨.ofSeconds 30, 3.0⟩] := by
  rw [rows]
  simp [gearLog, List.mergeSort, List.MergeSort.Internal.splitInTwo, Instant.le_iff,
    Instant.ofSeconds, Span.seconds]

/-- The changes of the gear from the fifteenth second on. -/
def gearChanges : List StateChange :=
  [⟨.ofSeconds 20, 0.0, 1.0⟩, ⟨.ofSeconds 30, 2.0, -0.0⟩, ⟨.ofSeconds 30, 3.0, 2.0⟩]

theorem reply_gearLog :
    gearLog.source.reply (.changes 42 "gear" ⟨.ofSeconds 15, .ofSeconds 30⟩) =
      .answer gearChanges := by
  show Reply.answer (changesAfter _ _ (Series.upTo _ (gearLog.rows 42 "gear"))) = _
  rw [rows_gearLog]
  rfl

theorem faithful_gearLog :
    (∀ r ∈ gearLog.records, IsNumber r.value) ∧
      gearLog.source.reply (.changes 42 "gear" ⟨.ofSeconds 15, .ofSeconds 30⟩) =
        .answer gearChanges ∧
      gearLog.Faithful 42 "gear" ⟨.ofSeconds 15, .ofSeconds 30⟩ gearChanges := by
  have hnumbers : ∀ r ∈ gearLog.records, IsNumber r.value := by decide +kernel
  obtain ⟨answer, hanswer, hfaithful⟩ :=
    faithful_changes hnumbers (⟨.ofSeconds 15, .ofSeconds 30⟩ : Range)
  obtain rfl : gearChanges = answer := Reply.answer.inj (reply_gearLog.symm.trans hanswer)
  exact ⟨hnumbers, reply_gearLog, hfaithful⟩

end Telematics.Log
