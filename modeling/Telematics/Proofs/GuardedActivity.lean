import Telematics.Proofs.DetectedSegments
import Telematics.Proofs.GuardedSegments
import Telematics.Proofs.WindowCounts

/-!
# Guarded detection of activity

The mechanisms that look at arrivals and at the engine speed, in guarded steps. The asked range is
moved by the gap tolerance and rounded down, windows and minutes are as long as a length of time,
and each ends at a date. All of this stays inside the margins of an accepted request, so each
mechanism comes to the segments that it finds without guards (`frequency_eq`, `changePoint_eq`,
`idling_eq`, `staticRpm_eq`).
-/

set_option autoImplicit false

namespace Telematics.Guarded

variable {now : Instant} {r : Request}

/-! ## Windows of a log -/

/-- The window that starts so many seconds after the epoch, unless that is outside the calendar. -/
def window (windowSeconds start : Int) (group : List Record) : Option (Option Window) :=
  let first := Instant.ofSeconds start
  if first.InCalendar then do
    let length ← seconds windowSeconds
    let stop ← later first length
    return some ⟨first, stop, group.length, (group.map Record.name).eraseDups.length⟩
  else return none

/-- The windows that a question asks for, in order; the length of a window must be positive. -/
def windows (log : Log) (token : TokenId) (query : WindowQuery) : Option (List Window) :=
  if query.windowSeconds ≤ 0 then none
  else
    collect
      (fun (start, group) =>
        if Log.qualifies query group then window query.windowSeconds start group else return none)
      (Log.gather query.windowSeconds (log.bucketed token query))

/-- Windows of a minute end in the calendar where the questions of a request end. -/
theorem windows_eq (hr : r.Roomy now) (log : Log) {query : WindowQuery}
    (hminute : query.windowSeconds = 60) (hstop : query.within.stop = r.asked.stop) :
    windows log r.token query = some (log.windows r.token query) := by
  rw [windows, if_neg (by rw [hminute]; decide)]
  apply collect_eq
  rintro ⟨start, group⟩ hgroup
  simp only
  split
  · rw [window, Log.window?]
    split
    · rename_i hfirst
      -- the window starts with the bucket of a row before the end of the range
      obtain ⟨hne, hall⟩ := Log.mem_gather hgroup
      obtain ⟨row, rows, rfl⟩ := List.exists_cons_of_ne_nil hne
      obtain ⟨hrow, hbucket⟩ := hall row List.mem_cons_self
      rw [Log.bucketed, List.mem_mergeSort, List.mem_filter] at hrow
      have hcounts := hrow.2
      simp only [Log.counts, Bool.and_eq_true, decide_eq_true_eq] at hcounts
      have hbefore : row.time < r.asked.stop := hstop ▸ hcounts.1.2
      have hlow := (Log.bucket_le (show (0 : Int) < 60 by decide) row.time).1
      rw [hminute] at hbucket ⊢
      rw [hbucket] at hlow
      have hroom : (Instant.ofSeconds start + Span.seconds 60).InCalendar := by
        refine Instant.inCalendar_of_le_of_le hfirst hr.after ?_ ?_
        · exact Int.le_add_of_nonneg_right (by decide)
        · exact Int.add_le_add (Int.le_trans hlow (Int.le_of_lt hbefore)) (by decide)
      rw [seconds_eq (by decide) (by decide), Option.bind_eq_bind, Option.bind_some,
        later_eq hroom]
      rfl
    · rfl
  · rfl

/-! ## Arrivals -/

/-- Trips from windows that reach a threshold. -/
def frequency (log : Log) (now : Instant) (r : Request) : Option (List Segment) := do
  let found ← windows log r.token (Arrivals.frequencyQuery r)
  let gap ← maxGap r.tuning (r.tuning.minIdleSeconds.getD Arrivals.defaultGap)
  let shortest ← minSegment r.tuning Arrivals.defaultMinSegment
  let activity := Activity.ofStretches r.asked now gap shortest (found.map Window.range)
  keepStarts r.asked shortest activity.lastOngoing activity.runs

/-- The stretch of a minute in which the score is high. -/
def activeSlot (step : Span) : Instant × Bool → Option (Option Range)
  | (slot, true) => do
    let stop ← later slot step
    return some ⟨slot, stop⟩
  | (_, false) => return none

/-- Trips from minutes in which the score is high. -/
def changePoint (log : Log) (now : Instant) (r : Request) : Option (List Segment) := do
  let gap ← maxGap r.tuning (r.tuning.minIdleSeconds.getD Arrivals.defaultGap)
  let shortest ← minSegment r.tuning Arrivals.defaultMinSegment
  let back ← earlier r.asked.start gap
  let first := back.alignDown Arrivals.windowSeconds
  let found ← windows log r.token (WindowQuery.all ⟨first, r.asked.stop⟩ Arrivals.windowSeconds)
  let step ← seconds Arrivals.windowSeconds
  let slots ← scan step first r.asked.stop
  let active ← collect (activeSlot step) (slots.zip (Cusum.active (Arrivals.dense slots found)))
  let activity := Activity.ofStretches r.asked now gap shortest active
  keepStarts r.asked shortest activity.lastOngoing activity.runs

/-- The gap tolerance of arrivals is a length of time. -/
theorem gap_eq (hr : r.Roomy now) :
    maxGap r.tuning (r.tuning.minIdleSeconds.getD Arrivals.defaultGap) =
      some (Arrivals.gap r.tuning) := by
  obtain ⟨hlow, hhigh⟩ := Arrivals.gapSeconds_bounds hr.allowed
  rw [maxGap, seconds_eq (by rw [mostSeconds]; omega) (by rw [mostSeconds]; omega)]
  rfl

theorem frequency_eq (hr : r.Roomy now) (log : Log) :
    frequency log now r = some (Arrivals.segmentsOf r now
      ((log.windows r.token (Arrivals.frequencyQuery r)).map Window.range)) := by
  have hstretches : ∀ a ∈ (log.windows r.token (Arrivals.frequencyQuery r)).map Window.range,
      a.start < r.asked.stop ∧ r.asked.stop - a.start ≤ Span.seconds Segment.longest := by
    intro a ha
    obtain ⟨hstart, hback⟩ := Arrivals.start_bounds_frequency ha
    exact ⟨hstart, Arrivals.length_le_of_start_le hr.toAccepted hback⟩
  rw [frequency, windows_eq hr log rfl rfl, gap_eq hr, minSegment_eq hr.allowed (by decide)]
  exact keepStarts_ofStretches_eq now _ _ hstretches

/-- The stretches of active minutes, where a minute after each slot is in the calendar. -/
theorem collect_activeSlot_eq {step : Span} {slots : List Instant} {found : List Window}
    (h : ∀ slot ∈ slots, (slot + step).InCalendar) (hstep : step = Arrivals.windowLength) :
    collect (activeSlot step) (slots.zip (Cusum.active (Arrivals.dense slots found))) =
      some (Arrivals.activeSlots slots found) := by
  have hplain : Arrivals.activeSlots slots found =
      (slots.zip (Cusum.active (Arrivals.dense slots found))).filterMap fun minute =>
        if minute.2 then some ⟨minute.1, minute.1 + step⟩ else none := by
    rw [Arrivals.activeSlots, ← List.filterMap_eq_map, List.filterMap_filter, hstep]
    rfl
  rw [hplain]
  apply collect_eq
  rintro ⟨slot, high⟩ hslot
  cases high with
  | true =>
      rw [activeSlot, later_eq (h slot (List.of_mem_zip hslot).1)]
      rfl
  | false => rfl

theorem changePoint_eq (hr : r.Roomy now) (log : Log) :
    changePoint log now r = some (Arrivals.segmentsOf r now
      (Arrivals.activeSlots (Arrivals.slots r)
        (log.windows r.token (Arrivals.changePointQuery r)))) := by
  have hstretches : ∀ a ∈ Arrivals.activeSlots (Arrivals.slots r)
        (log.windows r.token (Arrivals.changePointQuery r)),
      a.start < r.asked.stop ∧ r.asked.stop - a.start ≤ Span.seconds Segment.longest := by
    intro a ha
    obtain ⟨hstart, hback⟩ := Arrivals.start_bounds_changePoint hr.allowed ha
    exact ⟨hstart, Arrivals.length_le_of_start_le hr.toAccepted hback⟩
  -- a minute from the lookback on, and before the end of the range, ends inside the margins
  have hminute : ∀ t, Arrivals.lookbackStart r ≤ t → t < r.asked.stop →
      (t + Arrivals.windowLength).InCalendar := by
    intro t hfirst hlast
    have hlookback := Arrivals.start_le_lookbackStart hr.allowed
    rw [Instant.le_iff] at hfirst
    rw [Instant.lt_iff] at hlast
    apply hr.inCalendar <;> rw [Instant.nanos_add, Arrivals.windowLength] <;>
      simp only [Arrivals.windowSeconds, Span.seconds] at * <;> omega
  obtain ⟨hgap, hgap'⟩ := Arrivals.gapSeconds_bounds hr.allowed
  have hback : earlier r.asked.start (Arrivals.gap r.tuning) =
      some (r.asked.start - Arrivals.gap r.tuning) := earlier_start hr (by omega) (by omega)
  have hfound : windows log r.token (Arrivals.changePointQuery r) =
      some (log.windows r.token (Arrivals.changePointQuery r)) := windows_eq hr log rfl rfl
  have hslots : scan Arrivals.windowLength (Arrivals.lookbackStart r) r.asked.stop =
      some (Arrivals.slots r) := scan_eq (by decide) hminute
  have hstep : seconds Arrivals.windowSeconds = some Arrivals.windowLength :=
    seconds_eq (by decide) (by decide)
  have hends : ∀ slot ∈ Arrivals.slots r, (slot + Arrivals.windowLength).InCalendar := by
    intro slot hslot
    obtain ⟨hfirst, hlast⟩ := Instant.bounds_of_mem_every (by decide) hslot
    exact hminute slot hfirst hlast
  rw [changePoint, gap_eq hr, minSegment_eq hr.allowed (by decide), Option.bind_eq_bind,
    Option.bind_some, Option.bind_some, hback, Option.bind_eq_bind, Option.bind_some]
  show (windows log r.token (Arrivals.changePointQuery r)).bind _ = _
  rw [hfound, Option.bind_some, hstep, Option.bind_some]
  show (scan Arrivals.windowLength (Arrivals.lookbackStart r) r.asked.stop).bind _ = _
  rw [hslots, Option.bind_some, collect_activeSlot_eq hends rfl]
  exact keepStarts_ofStretches_eq now _ _ hstretches

/-! ## Idling -/

/-- Idling from the samples of the engine speed. -/
def idling (log : Log) (now : Instant) (r : Request) : Option (List Segment) := do
  let gap ← maxGap r.tuning Idling.defaultGap
  let shortest ← minSegment r.tuning Idling.defaultMinSegment
  let back ← earlier r.asked.start gap
  let samples := log.levels r.token Signal.engineSpeed ⟨back, r.asked.stop⟩
  let ceiling := Idling.ceiling r.tuning
  let found := Activity.relevant r.asked shortest (Idling.runs ceiling gap samples)
  let lastOngoing := Idling.stillIdle ceiling samples &&
    Activity.lastTrails r.asked now gap found
  clip r.asked shortest lastOngoing found

/-- Idling from minutes whose samples are all idle. -/
def staticRpm (log : Log) (now : Instant) (r : Request) : Option (List Segment) := do
  let gap ← maxGap r.tuning Idling.defaultGap
  let shortest ← minSegment r.tuning Idling.defaultMinSegment
  let found ← windows log r.token (Idling.windowQuery r)
  let activity := Activity.ofStretches r.asked now gap shortest (found.map Window.range)
  clip r.asked shortest activity.lastOngoing activity.runs

theorem idling_eq (hr : r.Roomy now) (log : Log) :
    idling log now r = some (Idling.segments r now (log.engineSpeeds r)) := by
  have hdefault : Tunable.maxGap.allows Idling.defaultGap = true := by decide
  obtain ⟨hlow, hhigh⟩ := Tuning.maxGap_bounds hr.allowed hdefault
  have hback : earlier r.asked.start (r.tuning.maxGap Idling.defaultGap) =
      some (r.asked.start - r.tuning.maxGap Idling.defaultGap) :=
    earlier_start hr (by omega) (by omega)
  rw [idling, maxGap_eq hr.allowed hdefault, minSegment_eq hr.allowed (by decide),
    Option.bind_eq_bind, Option.bind_some, Option.bind_some, hback]
  exact clip_eq hr.length_le _ _ _

theorem staticRpm_eq (hr : r.Roomy now) (log : Log) :
    staticRpm log now r =
      some (Idling.windowSegments r now (log.windows r.token (Idling.windowQuery r))) := by
  rw [staticRpm, maxGap_eq hr.allowed (by decide), minSegment_eq hr.allowed (by decide),
    Option.bind_eq_bind, Option.bind_some, Option.bind_some, windows_eq hr log rfl rfl]
  exact clip_eq hr.length_le _ _ _

end Telematics.Guarded
