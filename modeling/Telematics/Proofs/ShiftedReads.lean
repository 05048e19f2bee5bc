import Telematics.Proofs.LogReads
import Telematics.Proofs.ShiftedTime

/-!
# Reads of a moved log

When the rows of a log and the range of a read move by the same length of time, the answer moves
along. For samples and changes of state any length will do. Windows of a minute lie at whole minutes
since the epoch, and only those in the calendar are answered: so their answer moves along with whole
minutes, as long as the range stays in the calendar (`Read.Movable`).
-/

set_option autoImplicit false

namespace Telematics

/-! ## What moves -/

/-- The row moved by a length of time. -/
def Record.shift (d : Span) (x : Record) : Record := { x with time := x.time + d }

/-- The log with every row moved by a length of time. -/
def Log.shift (d : Span) (log : Log) : Log := ⟨log.records.map (Record.shift d)⟩

/-- The window moved by a length of time. -/
def Window.shift (d : Span) (w : Window) : Window :=
  { w with start := w.start + d, stop := w.stop + d }

/-- The change moved by a length of time. -/
def StateChange.shift (d : Span) (c : StateChange) : StateChange := { c with time := c.time + d }

/-- The same question about the moved range. -/
def WindowQuery.shift (d : Span) (query : WindowQuery) : WindowQuery :=
  { query with within := query.within.shift d }

namespace Read

/-- The same read of the moved range. -/
def shift (d : Span) : Read → Read
  | levels token signal within => levels token signal (within.shift d)
  | windows token query => windows token (query.shift d)
  | changes token signal within => changes token signal (within.shift d)

/-- The answer to a read, moved, as an answer to the moved read. -/
def shiftAnswer (d : Span) : (read : Read) → read.Answer → (read.shift d).Answer
  | levels _ _ _, samples => List.map (Sample.shift d) samples
  | windows _ _, found => List.map (Window.shift d) found
  | changes _ _ _, found => List.map (StateChange.shift d) found

/-- The answer to a read moves along with it: a question for windows is one for minutes, and its
range stays inside the calendar. -/
def Movable (d : Span) : Read → Prop
  | levels _ _ _ => True
  | windows _ query => query.windowSeconds = 60 ∧ query.within.start.Stays d ∧
      query.within.stop.Stays d
  | changes _ _ _ => True

end Read

namespace Log

variable {d : Span} {k : Int} (log : Log) (token : TokenId) (signal : String) (within : Range)

/-! ## Samples and changes -/

theorem rows_shift :
    (log.shift d).rows token signal = (log.rows token signal).map (Sample.shift d) := by
  have hsort : ∀ samples : List (Sample Float),
      (samples.map (Sample.shift d)).mergeSort (fun a b => decide (a.time ≤ b.time)) =
        (samples.mergeSort fun a b => decide (a.time ≤ b.time)).map (Sample.shift d) := by
    intro samples
    refine (List.map_mergeSort fun a _ b _ => ?_).symm
    rw [decide_eq_decide]
    exact (Instant.add_le_add_iff a.time b.time d).symm
  rw [rows, rows, ← hsort, shift, List.filter_map, List.map_map, List.map_map]
  rfl

theorem levels_shift :
    (log.shift d).levels token signal (within.shift d) =
      (log.levels token signal within).map (Sample.shift d) := by
  rw [levels, levels, rows_shift, List.filter_map]
  congr 1
  apply List.filter_congr
  intro s _
  simp only [Function.comp_apply, Sample.shift, Range.start_shift, Range.stop_shift,
    Instant.add_le_add_iff]

theorem changesAfter_shift (start : Instant) (state : Float) (samples : List (Sample Float)) :
    changesAfter (start + d) state (samples.map (Sample.shift d)) =
      (changesAfter start state samples).map (StateChange.shift d) := by
  induction samples generalizing state with
  | nil => rfl
  | cons s rest ih =>
      rw [List.map_cons, changesAfter, changesAfter]
      simp only [Sample.shift, Instant.add_le_add_iff, ih]
      split <;> rfl

theorem changes_shift :
    (log.shift d).changes token signal (within.shift d) =
      (log.changes token signal within).map (StateChange.shift d) := by
  rw [changes, changes, rows_shift, Range.stop_shift, Series.upTo_shift, Range.start_shift,
    changesAfter_shift]

/-! ## Windows -/

theorem counts_shift (query : WindowQuery) (x : Record) :
    counts token (query.shift d) (x.shift d) = counts token query x := by
  simp only [counts, WindowQuery.shift, Record.shift, Range.start_shift, Range.stop_shift,
    Instant.add_le_add_iff, Instant.add_lt_add_iff]

theorem bucket_add_minutes (t : Instant) (k : Int) :
    bucket 60 (t + Span.minutes k) = bucket 60 t + 60 * k := Instant.minute_add_minutes t k

theorem gather_shift (rows : List Record) :
    gather 60 (rows.map (Record.shift (Span.minutes k))) =
      (gather 60 rows).map fun (b, group) =>
        (b + 60 * k, group.map (Record.shift (Span.minutes k))) := by
  induction rows with
  | nil => rfl
  | cons x rest ih =>
      have hbucket : bucket 60 (x.shift (Span.minutes k)).time = bucket 60 x.time + 60 * k :=
        bucket_add_minutes x.time k
      rw [List.map_cons, gather, gather, ih, hbucket]
      cases gather 60 rest with
      | nil => rfl
      | cons first groups =>
          obtain ⟨b, group⟩ := first
          simp only [List.map_cons, Int.add_left_inj]
          split <;> rfl

theorem qualifies_shift (query : WindowQuery) (group : List Record) :
    qualifies (query.shift d) (group.map (Record.shift d)) = qualifies query group := by
  simp only [qualifies, WindowQuery.shift, List.length_map, List.map_map]
  rfl

theorem window?_shift {b : Int} (hb : (Instant.ofSeconds b).Stays (Span.minutes k))
    (group : List Record) :
    window? 60 (b + 60 * k) (group.map (Record.shift (Span.minutes k))) =
      (window? 60 b group).map (Window.shift (Span.minutes k)) := by
  have hnames : (group.map (Record.shift (Span.minutes k))).map Record.name =
      group.map Record.name := by
    rw [List.map_map]
    rfl
  rw [window?, window?, ← Instant.ofSeconds_add_minutes]
  simp only [if_pos hb.before, if_pos hb.after, List.length_map, hnames, Option.map_some,
    Window.shift, Instant.add_add_comm]

/-- The windows of a moved log are the moved windows. -/
theorem windows_shift {query : WindowQuery} (hminutes : query.windowSeconds = 60)
    (hstart : query.within.start.Stays (Span.minutes k))
    (hstop : query.within.stop.Stays (Span.minutes k)) :
    (log.shift (Span.minutes k)).windows token (query.shift (Span.minutes k)) =
      (log.windows token query).map (Window.shift (Span.minutes k)) := by
  have hcounted : (log.shift (Span.minutes k)).records.filter
        (counts token (query.shift (Span.minutes k))) =
      (log.records.filter (counts token query)).map (Record.shift (Span.minutes k)) := by
    rw [shift, List.filter_map]
    congr 1
    apply List.filter_congr
    intro x _
    exact counts_shift token query x
  have hsort : ∀ rows : List Record,
      (rows.map (Record.shift (Span.minutes k))).mergeSort
          (fun a b => decide (bucket 60 a.time ≤ bucket 60 b.time)) =
        (rows.mergeSort fun a b => decide (bucket 60 a.time ≤ bucket 60 b.time)).map
          (Record.shift (Span.minutes k)) := by
    intro rows
    refine (List.map_mergeSort fun a _ b _ => ?_).symm
    simp only [Record.shift, bucket_add_minutes, Int.add_le_add_iff_right]
  have hquery : (query.shift (Span.minutes k)).windowSeconds = 60 := hminutes
  simp only [windows, hquery, hminutes, hcounted, hsort, gather_shift]
  rw [List.filterMap_map, List.map_filterMap]
  apply List.filterMap_congr
  rintro ⟨b, group⟩ hgroup
  -- the rows of a group count, so that its minute stays in the calendar
  have hstays : (Instant.ofSeconds b).Stays (Span.minutes k) := by
    obtain ⟨hne, hall⟩ := mem_gather hgroup
    obtain ⟨x, later, rfl⟩ := List.exists_cons_of_ne_nil hne
    obtain ⟨hx, rfl⟩ := hall x List.mem_cons_self
    rw [List.mem_mergeSort, List.mem_filter] at hx
    have hcounts := hx.2
    simp only [counts, Bool.and_eq_true, decide_eq_true_eq] at hcounts
    obtain ⟨⟨⟨-, hfrom⟩, hto⟩, -⟩ := hcounts
    exact (hstart.of_le_of_le hstop hfrom (Int.le_of_lt hto)).minute
  simp only [Function.comp_apply, qualifies_shift]
  split
  · exact window?_shift hstays group
  · rfl

/-- A log answers a question for minutes. -/
theorem reply_windows {query : WindowQuery} (hminutes : query.windowSeconds = 60) :
    log.reply (.windows token query) = .answer (log.windows token query) := by
  have hpos : ¬ query.windowSeconds ≤ 0 := by omega
  rw [reply, windows?, if_neg hpos]

/-- A log answers a movable read, and the moved log gives the moved answer to the moved read. -/
theorem exists_answer_shift {read : Read} (h : read.Movable (Span.minutes k)) :
    ∃ a, log.source.reply read = .answer a ∧
      (log.shift (Span.minutes k)).source.reply (read.shift (Span.minutes k)) =
        .answer (read.shiftAnswer (Span.minutes k) a) := by
  cases read with
  | levels token signal within =>
      exact ⟨_, rfl, congrArg Reply.answer (log.levels_shift token signal within)⟩
  | changes token signal within =>
      exact ⟨_, rfl, congrArg Reply.answer (log.changes_shift token signal within)⟩
  | windows token query =>
      obtain ⟨hminutes, hstart, hstop⟩ := h
      have hwindows := log.windows_shift token hminutes hstart hstop
      have hmoved := (log.shift (Span.minutes k)).reply_windows token
        (show (query.shift (Span.minutes k)).windowSeconds = 60 from hminutes)
      exact ⟨_, log.reply_windows token hminutes, hmoved.trans (congrArg Reply.answer hwindows)⟩

end Log

end Telematics
