import Telematics.Proofs.GuardedSegments
import Telematics.Proofs.IgnitionTrips
import Telematics.Proofs.LogReads

/-!
# Guarded trips from the ignition

Trips from the ignition in guarded steps. Blips are marked on a walk back over the changes that
writes to positions of a list of marks; the walk writes only inside the list, and what it leaves
unmarked is what `Ignition.debounce` keeps (`debounce_eq`). A day before an accepted request is in
the calendar, and a trip that begins after it has a duration that can be reported (`ignition_eq`).
-/

set_option autoImplicit false

namespace Telematics.Guarded

/-! ## Marks -/

/-- A list of marks with one of them written anew, if the position is inside the list. -/
def write (marks : List Bool) (i : Nat) (mark : Bool) : Option (List Bool) :=
  if i < marks.length then some (marks.set i mark) else none

/-- One step of the walk back, at the change at position `i`; `next` is the next on after it. -/
def markStep (minIdle : Span) (c : StateChange) (i : Nat) (marks : List Bool)
    (next : Option Instant) : Option (List Bool × Option Instant) :=
  if c.isOn then some (marks, some c.time)
  else if c.isOff then
    match next with
    | some t => do
      let marks ← write marks i (decide (minIdle ≤ t - c.time))
      return (marks, some t)
    | none => some (marks, none)
  else some (marks, next)

/-- The walk back over changes with their positions: the marks it leaves, and the first on. -/
def walkBack (minIdle : Span) (marks : List Bool) :
    List (StateChange × Nat) → Option (List Bool × Option Instant)
  | [] => some (marks, none)
  | (c, i) :: rest => do
    let (marks, next) ← walkBack minIdle marks rest
    markStep minIdle c i marks next

/-- The changes without the blips. -/
def debounce (minIdle : Span) (changes : List StateChange) : Option (List StateChange) := do
  let (marks, _) ← walkBack minIdle (List.replicate changes.length true) changes.zipIdx
  return ((changes.zip marks).filter Prod.snd).map Prod.fst

/-- The changes that stay, one mark for each change. -/
def staying (minIdle : Span) : List StateChange → List Bool
  | [] => []
  | c :: later => (!Ignition.isBlip minIdle c later) :: staying minIdle later

theorem nextOn_cons (c : StateChange) (later : List StateChange) :
    Ignition.nextOn (c :: later) = if c.isOn then some c.time else Ignition.nextOn later := by
  rw [Ignition.nextOn, List.find?_cons]
  cases c.isOn <;> rfl

/-- A step marks its own change, and knows the next on for the change before it. -/
theorem markStep_eq (minIdle : Span) (c : StateChange) (later : List StateChange) (k : Nat)
    (marks : List Bool) :
    markStep minIdle c k (List.replicate k true ++ true :: marks) (Ignition.nextOn later) =
      some (List.replicate k true ++ (!Ignition.isBlip minIdle c later) :: marks,
        Ignition.nextOn (c :: later)) := by
  rw [nextOn_cons, Ignition.isBlip]
  unfold markStep
  cases hon : c.isOn with
  | true =>
      rw [StateChange.isOff_eq_false_of_isOn hon]
      rfl
  | false =>
      cases hoff : c.isOff with
      | false => rfl
      | true =>
          cases hnext : Ignition.nextOn later with
          | none => rfl
          | some t =>
              simp [write, ← decide_not]

theorem walkBack_eq (minIdle : Span) (changes : List StateChange) (k : Nat) :
    walkBack minIdle (List.replicate (k + changes.length) true) (changes.zipIdx k) =
      some (List.replicate k true ++ staying minIdle changes, Ignition.nextOn changes) := by
  -- the walk comes from the back: the marks of the `k` changes in front are not written yet
  induction changes generalizing k with
  | nil => simp [walkBack, staying, Ignition.nextOn]
  | cons c later ih =>
      have hlater := ih (k + 1)
      rw [Nat.add_right_comm, List.replicate_succ' (n := k), List.append_assoc,
        List.singleton_append] at hlater
      rw [List.zipIdx_cons, walkBack, List.length_cons, ← Nat.add_assoc, hlater]
      exact markStep_eq minIdle c later k _

/-- The marks keep what is no blip. -/
theorem map_fst_zip_staying (minIdle : Span) (changes : List StateChange) :
    ((changes.zip (staying minIdle changes)).filter Prod.snd).map Prod.fst =
      Ignition.debounce minIdle changes := by
  induction changes with
  | nil => rfl
  | cons c later ih =>
      rw [staying, List.zip_cons_cons, Ignition.debounce, ← ih]
      cases Ignition.isBlip minIdle c later <;> rfl

theorem debounce_eq (minIdle : Span) (changes : List StateChange) :
    debounce minIdle changes = some (Ignition.debounce minIdle changes) := by
  have hwalk := walkBack_eq minIdle changes 0
  rw [Nat.zero_add] at hwalk
  rw [debounce, hwalk, ← map_fst_zip_staying]
  rfl

/-! ## Segments of trips -/

/-- The segment of a trip that is long enough and does not end before the asked range begins. -/
def tripSegment (asked : Range) (shortest : Span) (trip : Trip) : Option (Option Segment) :=
  let before := decide (trip.start < asked.start)
  match trip.stop with
  | some stop =>
    if stop ≤ asked.start ∨ stop - trip.start < shortest then return none
    else closed trip.start stop before
  | none =>
    if asked.stop - trip.start < shortest then return none
    else ongoing trip.start asked.stop before

/-- Trips from the changes of the ignition. -/
def ignition (log : Log) (r : Request) : Option (List Segment) := do
  let lookback ← seconds (3600 * 24)
  let back ← earlier r.asked.start lookback
  let changes := log.changes r.token Signal.ignition ⟨back, r.asked.stop⟩
  let idle ← minIdle r.tuning Ignition.defaultMinIdle
  let kept ← debounce idle changes
  let shortest ← minSegment r.tuning Ignition.defaultMinSegment
  collect (tripSegment r.asked shortest) (Ignition.pair none kept)

variable {now : Instant} {r : Request}

/-- A trip between a day before the asked range and its end. -/
theorem tripSegment_eq (hr : r.Roomy now) {trip : Trip} (shortest : Span)
    (hback : r.asked.start - Ignition.lookback ≤ trip.start) (hstart : trip.start ≤ r.asked.stop)
    (hstop : ∀ stop, trip.stop = some stop → stop ≤ r.asked.stop) :
    tripSegment r.asked shortest trip = some (Ignition.segment? r.asked shortest trip) := by
  -- the same bound holds of the stop of the trip and of the end of the asked range
  have hlength : ∀ stop : Instant, stop ≤ r.asked.stop →
      stop - trip.start ≤ Span.seconds Segment.longest := by
    intro stop hle
    have hshort := hr.short
    rw [Range.length, Instant.sub_le_iff] at hshort
    rw [Instant.sub_le_iff]
    rw [Instant.le_iff] at hback hle
    simp only [Ignition.lookback, Instant.nanos_sub, Span.hours, Span.days, Span.seconds,
      Segment.longest] at *
    omega
  cases trip with
  | mk start stop =>
      cases stop with
      | none =>
          simp only [tripSegment, Ignition.segment?]
          split
          · rfl
          · exact (agrees_ongoing hstart (hlength _ (Int.le_refl _)) _).1
      | some stop =>
          simp only [tripSegment, Ignition.segment?]
          split
          · rfl
          · exact (agrees_closed (hlength stop (hstop stop rfl)) _).1

theorem ignition_eq (hr : r.Roomy now) (log : Log) :
    ignition log r = some (Ignition.segments r.asked r.tuning (log.ignitionChanges r)) := by
  have hday : seconds (3600 * 24) = some Ignition.lookback :=
    seconds_eq (by decide) (by decide)
  have hback : earlier r.asked.start Ignition.lookback =
      some (r.asked.start - Ignition.lookback) := earlier_start hr (by decide) (by decide)
  rw [ignition, hday, Option.bind_eq_bind, Option.bind_some, hback, Option.bind_eq_bind,
    Option.bind_some, minIdle_eq hr.allowed (by decide)]
  show (debounce _ (log.ignitionChanges r)).bind _ = _
  rw [debounce_eq, Option.bind_some, minSegment_eq hr.allowed (by decide)]
  apply collect_eq
  intro trip htrip
  have hwithin : ∀ c ∈ log.ignitionChanges r,
      r.asked.start - Ignition.lookback ≤ c.time ∧ c.time ≤ r.asked.stop :=
    fun c hc => Log.time_of_mem_changes hc
  rcases Ignition.start_of_mem_pair htrip with hstart | ⟨c, hc, -, hctime⟩
  · exact absurd hstart (by simp)
  · obtain ⟨hlow, hhigh⟩ := hwithin c hc
    rw [hctime] at hlow hhigh
    apply tripSegment_eq hr _ hlow hhigh
    intro stop hstop
    obtain ⟨d, hd, hdtime⟩ := Ignition.exists_stop_of_mem_pair htrip hstop
    rw [← hdtime]
    exact (hwithin d hd).2

end Telematics.Guarded
