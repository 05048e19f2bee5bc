import Telematics.Proofs.MinuteChains

/-!
# Idle minutes and idle samples

Idling is found by two tests. One looks at each sample of the engine speed (`Idling.isIdle`); the
other asks for the minutes whose least speed is above zero and whose greatest is not above the
ceiling. Both agree on numbers: a minute with enough rows is answered exactly when all its speeds
that are numbers are idle, and a speed of such a minute is idle exactly when it is a number
(`Idling.idle_minutes_agree`). What is no number is passed over on the way to the least and the
greatest, so that a minute with such a speed, which ends every run of idle samples, is counted as
idle all the same (`Idling.not_isIdle_blankLog`).
-/

set_option autoImplicit false

namespace Telematics.Idling

open FloatOrder (IsNumber)

variable {log : Log} {r : Request}

/-- A row is one of the engine speeds that are asked for. -/
structure Asked (r : Request) (x : Record) : Prop where
  token : x.token = r.token
  name : x.name = Signal.engineSpeed
  time : x.time ∈ (windowQuery r).within

/-- The rows of the engine speed in a minute, of those that are asked for. -/
def speeds (log : Log) (r : Request) (k : Int) : List Record :=
  log.windowRows r.token (windowQuery r) k

theorem mem_speeds_iff {k : Int} {x : Record} :
    x ∈ speeds log r k ↔ x ∈ log.records ∧ Asked r x ∧ x.time ∈ minuteAt k := by
  have hminute : windowAt (windowQuery r).windowSeconds k = minuteAt k := rfl
  have hband : ((windowQuery r).band.all fun band => x.name == band.signal) =
      (x.name == Signal.engineSpeed) := rfl
  rw [speeds, Log.windowRows, List.mem_filter, hminute, hband]
  simp only [Bool.and_eq_true, beq_iff_eq, decide_eq_true_eq]
  constructor
  · rintro ⟨hx, ⟨⟨htoken, htime⟩, hin⟩, hname⟩
    exact ⟨hx, ⟨htoken, hname, htime⟩, hin⟩
  · rintro ⟨hx, ⟨htoken, hname, htime⟩, hin⟩
    exact ⟨hx, ⟨⟨htoken, htime⟩, hin⟩, hname⟩

theorem isIdle_iff {ceiling rpm : Float} :
    isIdle ceiling rpm = true ↔ 0.0 < rpm ∧ rpm ≤ ceiling := by
  rw [isIdle, Bool.and_eq_true, decide_eq_true_eq, decide_eq_true_eq]

/-- What is no number is not idle. -/
theorem isNumber_of_isIdle {ceiling rpm : Float} (h : isIdle ceiling rpm = true) : IsNumber rpm :=
  (FloatOrder.isNumber_of_le (isIdle_iff.1 h).2).1

/-- Rows qualify as an idle minute when there are enough, and all speeds that are numbers are
idle. -/
theorem qualifies_windowQuery_iff (hvalid : r.tuning.firstOutside = none) {group : List Record} :
    Log.qualifies (windowQuery r) group = true ↔
      r.tuning.countThreshold defaultThreshold ≤ group.length ∧
        ∀ x ∈ group, IsNumber x.value → isIdle (ceiling r.tuning) x.value = true := by
  rw [Log.qualifies_iff_numbers]
  simp only [isIdle_iff]
  constructor
  · rintro ⟨hcount, -, hband⟩
    exact ⟨hcount, (hband _ rfl).2⟩
  · rintro ⟨hcount, hidle⟩
    refine ⟨hcount, ?_, ?_⟩
    · rintro n ⟨⟩
    · rintro band ⟨⟩
      exact ⟨(proper_minuteSearch hvalid).band_finite _ rfl, hidle⟩

/-- A minute counts as idle. -/
structure CountsAsIdle (log : Log) (r : Request) (k : Int) : Prop where
  inCalendar : (minuteAt k).start.InCalendar
  /-- There are enough speeds. -/
  enough : r.tuning.countThreshold defaultThreshold ≤ (speeds log r k).length
  /-- Those that are numbers are idle. -/
  idle : ∀ x ∈ speeds log r k, IsNumber x.value → isIdle (ceiling r.tuning) x.value = true

/-- The windows that are answered are those of the minutes that count as idle. -/
theorem mem_windows_windowQuery_iff (hvalid : r.tuning.firstOutside = none) {w : Window} :
    w ∈ log.windows r.token (windowQuery r) ↔
      ∃ k, CountsAsIdle log r k ∧ w = log.windowOf r.token (windowQuery r) k := by
  have hperm : ∀ k, (log.bucketRows r.token (windowQuery r) (60 * k)).Perm (speeds log r k) :=
    log.bucketRows_perm r.token (show (0 : Int) < 60 by decide)
  have hwindow : ∀ k, Log.window? 60 (60 * k) (speeds log r k) = some w ↔
      (minuteAt k).start.InCalendar ∧ w = log.windowOf r.token (windowQuery r) k :=
    fun k => @Log.window?_windowRows log r.token (windowQuery r) k w
  rw [Log.mem_windows_iff]
  constructor
  · rintro ⟨b, hne, hqualifies, hanswered⟩
    obtain ⟨k, rfl⟩ : ∃ k, b = 60 * k := Log.exists_eq_mul_of_bucketRows hne
    -- the rows of a bucket are those of its minute, in another order
    rw [Log.qualifies_of_perm (hperm k), qualifies_windowQuery_iff hvalid] at hqualifies
    obtain ⟨hcalendar, hw⟩ := (hwindow k).1 ((Log.window?_of_perm (hperm k)).symm.trans hanswered)
    exact ⟨k, ⟨hcalendar, hqualifies.1, hqualifies.2⟩, hw⟩
  · rintro ⟨k, ⟨hcalendar, henough, hidle⟩, hw⟩
    have hpos : 0 < (log.bucketRows r.token (windowQuery r) (60 * k)).length := by
      rw [(hperm k).length_eq]
      exact Nat.lt_of_lt_of_le (proper_minuteSearch hvalid).leastCount_pos henough
    refine ⟨60 * k, List.length_pos_iff.1 hpos, ?_, ?_⟩
    · rw [Log.qualifies_of_perm (hperm k)]
      exact (qualifies_windowQuery_iff hvalid).2 ⟨henough, hidle⟩
    · exact (Log.window?_of_perm (hperm k)).trans ((hwindow k).2 ⟨hcalendar, hw⟩)

/-- Both tests for idling agree as far as speeds are numbers: the windows that are answered are
those of the minutes with enough speeds of which those that are numbers are idle, and each speed in
such a window is idle exactly if it is a number. -/
theorem idle_minutes_agree (hvalid : r.tuning.firstOutside = none) (log : Log) :
    (∀ w, w ∈ log.windows r.token (windowQuery r) ↔
      ∃ k, CountsAsIdle log r k ∧ w = log.windowOf r.token (windowQuery r) k) ∧
      ∀ w ∈ log.windows r.token (windowQuery r), ∀ x ∈ log.records, Asked r x →
        x.time ∈ w.range → (isIdle (ceiling r.tuning) x.value = true ↔ IsNumber x.value) := by
  refine ⟨fun w => mem_windows_windowQuery_iff hvalid, ?_⟩
  intro w hw x hx hasked hin
  obtain ⟨k, hcounts, rfl⟩ := (mem_windows_windowQuery_iff hvalid).1 hw
  exact ⟨isNumber_of_isIdle, hcounts.idle x (mem_speeds_iff.2 ⟨hx, hasked, hin⟩)⟩

/-- Four minutes in which the engine idles, with a row every twenty seconds, one of which is no
number. -/
def blankLog : Log :=
  ⟨(List.range 12).map fun (i : Nat) =>
    ⟨42, Signal.engineSpeed, .ofSeconds (20 * (i : Int)), if i = 10 then 0.0 / 0.0 else 800.0⟩⟩

/-- These minutes, with the default tunables. -/
def fourMinutes : Request := ⟨42, ⟨.ofSeconds 0, .ofSeconds 240⟩, .default⟩

/-- The row that is no number. -/
def blankRow : Record := ⟨42, Signal.engineSpeed, .ofSeconds 200, 0.0 / 0.0⟩

/-- The window of the last minute. -/
def blankWindow : Window := ⟨.ofSeconds 180, .ofSeconds 240, 3, 1⟩

theorem windows_blankLog :
    blankLog.windows fourMinutes.token (windowQuery fourMinutes) =
      [⟨.ofSeconds 0, .ofSeconds 60, 3, 1⟩, ⟨.ofSeconds 60, .ofSeconds 120, 3, 1⟩,
        ⟨.ofSeconds 120, .ofSeconds 180, 3, 1⟩, blankWindow] := by
  have hsorted : blankLog.bucketed 42 (windowQuery fourMinutes) =
      blankLog.records.filter (Log.counts 42 (windowQuery fourMinutes)) :=
    Log.bucketed_of_pairwise (by decide +kernel) 42 (by decide)
  show (Log.gather _ (blankLog.bucketed 42 (windowQuery fourMinutes))).filterMap _ = _
  rw [hsorted]
  decide +kernel

/-- The idling that is found in them. -/
def blankIdle : Segment := ⟨.ofSeconds 0, some (.ofSeconds 240), 240, false, false⟩

theorem outcome_blankLog :
    (Mechanism.staticRpm.detect blankLog.source (.ofSeconds 100000) fourMinutes).outcome =
      .answer [blankIdle] := by
  have hwindows : (blankLog.windows fourMinutes.token (windowQuery fourMinutes)).map Window.range =
      (List.range 4).map fun (i : Nat) => minuteAt i := by
    rw [windows_blankLog]
    rfl
  have hmerge : Range.merge (gap fourMinutes.tuning) _ = _ := merge_idlingMinutes
  rw [Log.outcome_staticRpm, windowSegments, hwindows, Activity.ofStretches, hmerge]
  exact congrArg Outcome.answer (by decide +kernel)

theorem outcome_samples_blankLog :
    (Mechanism.idling.detect blankLog.source (.ofSeconds 100000) fourMinutes).outcome =
      .answer [] := by
  have hspeeds : blankLog.engineSpeeds fourMinutes =
      blankLog.records.map fun x => ⟨x.time, x.value⟩ :=
    Log.levels_eq_map (by decide) (by decide +kernel) (by decide +kernel)
  rw [Log.outcome_idling, hspeeds]
  exact congrArg Outcome.answer (by decide +kernel)

theorem asked_blankRow : Asked fourMinutes blankRow := ⟨rfl, rfl, by decide⟩

theorem mem_windows_blankLog :
    blankWindow ∈ blankLog.windows fourMinutes.token (windowQuery fourMinutes) := by
  rw [windows_blankLog]
  simp

theorem mem_range_blankRow : blankRow.time ∈ blankWindow.range := by decide

theorem mem_records_blankRow : blankRow ∈ blankLog.records :=
  List.mem_map.2 ⟨10, by decide, rfl⟩

theorem idle_minutes_agree_blankLog :
    fourMinutes.tuning.firstOutside = none ∧
      blankWindow ∈ blankLog.windows fourMinutes.token (windowQuery fourMinutes) ∧
      blankRow ∈ blankLog.records ∧ Asked fourMinutes blankRow ∧
      blankRow.time ∈ blankWindow.range ∧
      (∃ k, CountsAsIdle blankLog fourMinutes k ∧
        blankWindow = blankLog.windowOf fourMinutes.token (windowQuery fourMinutes) k) ∧
      (isIdle (ceiling fourMinutes.tuning) blankRow.value = true ↔ IsNumber blankRow.value) := by
  have hvalid : fourMinutes.tuning.firstOutside = none := rfl
  obtain ⟨hwindows, hrows⟩ := idle_minutes_agree hvalid blankLog
  have hwindow := mem_windows_blankLog
  exact ⟨hvalid, hwindow, mem_records_blankRow, asked_blankRow, mem_range_blankRow,
    (hwindows _).1 hwindow,
    hrows _ hwindow _ mem_records_blankRow asked_blankRow mem_range_blankRow⟩

/-- A minute that is answered has a speed that is not idle, as samples are judged, and so the
minutes show idling where the samples show none. -/
theorem not_isIdle_blankLog :
    fourMinutes.tuning.firstOutside = none ∧
      (¬ ∀ w ∈ blankLog.windows fourMinutes.token (windowQuery fourMinutes),
        ∀ x ∈ blankLog.records, Asked fourMinutes x → x.time ∈ w.range →
          isIdle (ceiling fourMinutes.tuning) x.value = true) ∧
      (Mechanism.staticRpm.detect blankLog.source (.ofSeconds 100000) fourMinutes).outcome =
        .answer [blankIdle] ∧
      (Mechanism.idling.detect blankLog.source (.ofSeconds 100000) fourMinutes).outcome =
        .answer [] := by
  refine ⟨rfl, ?_, outcome_blankLog, outcome_samples_blankLog⟩
  intro hall
  have hidle := hall _ mem_windows_blankLog _ mem_records_blankRow asked_blankRow mem_range_blankRow
  exact absurd hidle (by decide)

end Telematics.Idling
