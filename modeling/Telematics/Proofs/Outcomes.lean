import Telematics.Detection
import Telematics.Source.Log

/-!
# Outcomes of detection

Sources that answer every read leave a detector no way to fail. `Source.steady` gives the same
answer to all reads of one kind. A log answers from its rows, so the outcome of each mechanism is a
function of the rows: the segments that it finds in the answer to its read. Recharges alone need a
second read, and alone may have no outcome; `Recharge.answer` is what they find in two series of
readings.
-/

set_option autoImplicit false

namespace Telematics

/-- A source that gives the same answer to all reads of one kind. -/
def Source.steady (samples : List (Sample Float)) (windows : List Window)
    (changes : List StateChange) : Source where
  reply
    | .levels _ _ _ => .answer samples
    | .windows _ _ => .answer windows
    | .changes _ _ _ => .answer changes

/-- The recharges in a series of the state of charge and one of the odometer; none if two smoothed
values cannot be compared. -/
def Recharge.answer {α : Type} [Level α] (asked : Range) (charge odometer : List (Sample α))
    (leastIncrease : α) (minDuration : Span) : Option (List Segment) :=
  if charge.length < leastSamples then some []
  else (candidates charge odometer leastIncrease minDuration).map
    (segmentsOf asked odometer minDuration)

namespace Log

variable (log : Log) (now : Instant) (r : Request)

/-- The changes of the ignition that a request is answered from. -/
def ignitionChanges : List StateChange :=
  log.changes r.token Signal.ignition ⟨r.asked.start - Ignition.lookback, r.asked.stop⟩

/-- The samples of the engine speed that a request is answered from. -/
def engineSpeeds : List (Sample Float) :=
  log.levels r.token Signal.engineSpeed ⟨r.asked.start - Idling.gap r.tuning, r.asked.stop⟩

/-- The samples of the fuel level that a request is answered from. -/
def fuelLevels : List (Sample Float) :=
  log.levels r.token Signal.fuelLevel
    ⟨r.asked.start - Refuel.readMargin, r.asked.stop + Refuel.readMargin⟩

/-- The samples of the state of charge that a request is answered from. -/
def charges : List (Sample Float) :=
  log.levels r.token Signal.stateOfCharge (Recharge.readSpan r)

/-- The samples of the odometer that a request is answered from. -/
def odometers : List (Sample Float) :=
  log.levels r.token Signal.odometer (Recharge.readSpan r)

/-- A log replies to every read. -/
theorem reply_ne_never (read : Read) : log.source.reply read ≠ .never := by
  cases read with
  | levels token signal within => simp [source, reply]
  | changes token signal within => simp [source, reply]
  | windows token query =>
      show log.reply (.windows token query) ≠ .never
      rw [reply]
      split <;> simp

theorem outcome_ignition :
    (Mechanism.ignition.detect log.source now r).outcome =
      .answer (Ignition.segments r.asked r.tuning (log.ignitionChanges r)) := rfl

theorem outcome_frequency :
    (Mechanism.frequency.detect log.source now r).outcome =
      .answer (Arrivals.segmentsOf r now
        ((log.windows r.token (Arrivals.frequencyQuery r)).map Window.range)) := rfl

theorem outcome_changePoint :
    (Mechanism.changePoint.detect log.source now r).outcome =
      .answer (Arrivals.segmentsOf r now (Arrivals.activeSlots (Arrivals.slots r)
        (log.windows r.token (Arrivals.changePointQuery r)))) := rfl

theorem outcome_idling :
    (Mechanism.idling.detect log.source now r).outcome =
      .answer (Idling.segments r now (log.engineSpeeds r)) := rfl

theorem outcome_staticRpm :
    (Mechanism.staticRpm.detect log.source now r).outcome =
      .answer (Idling.windowSegments r now (log.windows r.token (Idling.windowQuery r))) := rfl

theorem outcome_refuel :
    (Mechanism.refuel.detect log.source now r).outcome =
      .answer (Refuel.segments r.asked (r.tuning.minIncrease Refuel.defaultIncrease)
        (r.tuning.minSegment Refuel.defaultMinSegment) (log.fuelLevels r)) := rfl

/-- Recharges are found in two series; there is no outcome when smoothed values cannot be
compared. -/
theorem outcome_recharge :
    (Mechanism.recharge.detect log.source now r).outcome =
      (Recharge.answer r.asked (log.charges r) (log.odometers r)
        (r.tuning.minIncrease Recharge.defaultIncrease)
        (r.tuning.minSegment Recharge.defaultMinSegment)).elim .stuck .answer := by
  have hplan : (Mechanism.recharge.detect log.source now r).outcome =
      ((Recharge.planWith r (log.charges r)).run log.source).outcome := rfl
  have hread : log.source.reply (.levels r.token Signal.odometer (Recharge.readSpan r)) =
      .answer (log.odometers r) := rfl
  rw [hplan, Recharge.planWith, Recharge.answer]
  split
  · rfl
  · rw [Plan.run, hread]
    simp only
    cases Recharge.candidates (log.charges r) (log.odometers r)
        (r.tuning.minIncrease Recharge.defaultIncrease)
        (r.tuning.minSegment Recharge.defaultMinSegment) with
    | none => rfl
    | some found => rfl

end Log

end Telematics
