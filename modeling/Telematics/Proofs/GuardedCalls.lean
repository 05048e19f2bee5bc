import Telematics.Proofs.GuardedActivity
import Telematics.Proofs.GuardedIgnition
import Telematics.Proofs.GuardedRecharge
import Telematics.Proofs.GuardedRefuel
import Telematics.Service

/-!
# Guarded calls

A call over a log fails exactly when the request is rejected. When it is not, no guarded step of the
mechanism breaks off: every date stays in the calendar, every number of seconds is a length of time,
every position is inside its list and every duration fits into 32 bits, and the guarded steps come
to the segments that the call is answered with (`answers_unless_rejected`). Recharges are found only
in smoothed levels that can be compared with each other, so there these have to be numbers.
-/

set_option autoImplicit false

namespace Telematics

/-- The smoothed state of charge that recharges are looked for in. -/
def Log.smoothedCharges (log : Log) (r : Request) : List Float :=
  Series.rollingMean Recharge.smoothing ((log.charges r).map Sample.value)

/-- The segments of a request by a mechanism, in guarded steps. -/
def Guarded.detect (m : Mechanism) (log : Log) (now : Instant) (r : Request) :
    Option (List Segment) :=
  match m with
  | .ignition => Guarded.ignition log r
  | .frequency => Guarded.frequency log now r
  | .changePoint => Guarded.changePoint log now r
  | .idling => Guarded.idling log now r
  | .staticRpm => Guarded.staticRpm log now r
  | .refuel => Guarded.refuel log r
  | .recharge => Guarded.recharge log r

/-- In an accepted request the guarded steps of a mechanism come to its answer. -/
theorem Guarded.exists_detect_eq {now : Instant} {r : Request} (hr : r.Roomy now) (log : Log)
    (m : Mechanism)
    (hnumbers : m = .recharge → ∀ v ∈ log.smoothedCharges r, FloatOrder.IsNumber v) :
    ∃ segments, Guarded.detect m log now r = some segments ∧
      (m.detect log.source now r).outcome = .answer segments := by
  cases m with
  | ignition => exact ⟨_, ignition_eq hr log, Log.outcome_ignition log now r⟩
  | frequency => exact ⟨_, frequency_eq hr log, Log.outcome_frequency log now r⟩
  | changePoint => exact ⟨_, changePoint_eq hr log, Log.outcome_changePoint log now r⟩
  | idling => exact ⟨_, idling_eq hr log, Log.outcome_idling log now r⟩
  | staticRpm => exact ⟨_, staticRpm_eq hr log, Log.outcome_staticRpm log now r⟩
  | refuel => exact ⟨_, refuel_eq hr log, Log.outcome_refuel log now r⟩
  | recharge =>
      have hsmoothed := hnumbers rfl
      have hfound := Recharge.isSome_candidates
        (fun a ha b hb => FloatOrder.le_or_lt (hsmoothed a ha) (hsmoothed b hb))
        (log.odometers r) (r.tuning.minIncrease Recharge.defaultIncrease)
        (r.tuning.minSegment Recharge.defaultMinSegment)
      obtain ⟨found, hfound⟩ := Option.isSome_iff_exists.1 hfound
      have hanswer : ∃ segments, Recharge.answer r.asked (log.charges r) (log.odometers r)
          (r.tuning.minIncrease Recharge.defaultIncrease)
          (r.tuning.minSegment Recharge.defaultMinSegment) = some segments := by
        rw [Recharge.answer, hfound]
        split
        · exact ⟨_, rfl⟩
        · exact ⟨_, rfl⟩
      obtain ⟨segments, hsegments⟩ := hanswer
      refine ⟨segments, (recharge_eq hr log).trans hsegments, ?_⟩
      rw [Log.outcome_recharge, hsegments]
      rfl

namespace Service

/-- A rejected call fails with the reason, and no other call fails: each is answered with what the
guarded steps come to. -/
theorem answers_unless_rejected (log : Log) (now : Instant) (m : Mechanism) (r : Request)
    (hnumbers : m = .recharge → ∀ v ∈ log.smoothedCharges r, FloatOrder.IsNumber v) :
    (∀ e, (Service.getSegments ⟨log.source, now⟩ m r).outcome = .failure e ↔
        ∃ why, r.rejection now = some why ∧ e = .rejected why) ∧
      (r.rejection now = none → ∃ segments,
        (Service.getSegments ⟨log.source, now⟩ m r).outcome = .answer segments ∧
          Guarded.detect m log now r = some segments) := by
  cases hrejection : r.rejection now with
  | some why =>
      have hcall : (Service.getSegments ⟨log.source, now⟩ m r).outcome =
          .failure (.rejected why) := by
        rw [getSegments, hrejection]
        rfl
      rw [hcall]
      refine ⟨fun e => ?_, fun h => absurd h (by simp)⟩
      simp only [Outcome.failure.injEq, Option.some.injEq, exists_eq_left']
      exact eq_comm
  | none =>
      obtain ⟨segments, hguarded, hanswer⟩ :=
        Guarded.exists_detect_eq (Request.roomy_of_rejection_eq_none hrejection) log m hnumbers
      have hcall : (Service.getSegments ⟨log.source, now⟩ m r).outcome = .answer segments := by
        rw [getSegments, hrejection]
        show (Call.ofRun m (m.detect log.source now r)).outcome = _
        rw [Call.ofRun, hanswer]
      rw [hcall]
      exact ⟨fun e => by simp, fun _ => ⟨segments, rfl, hguarded⟩⟩

/-- A charge from 20 to 80 percent in two hours, told every ten minutes. -/
def chargeLog : Log :=
  ⟨(List.range 13).map fun (i : Nat) =>
    ⟨42, Signal.stateOfCharge, .ofSeconds (600 * (i : Int)), 20.0 + 5.0 * Float.ofNat i⟩⟩

theorem charges_chargeLog :
    chargeLog.charges Ignition.twoHours = chargeLog.records.map fun r => ⟨r.time, r.value⟩ :=
  Log.levels_eq_map (by decide) (by decide) (by decide)

theorem answers_chargeLog :
    Ignition.twoHours.rejection (.ofSeconds 7200) = none ∧
      (∀ v ∈ chargeLog.smoothedCharges Ignition.twoHours, FloatOrder.IsNumber v) ∧
      ∃ segments,
        (Service.getSegments ⟨chargeLog.source, .ofSeconds 7200⟩ .recharge
          Ignition.twoHours).outcome = .answer segments ∧
          Guarded.detect .recharge chargeLog (.ofSeconds 7200) Ignition.twoHours =
            some segments := by
  have haccepted : Ignition.twoHours.rejection (.ofSeconds 7200) = none := by decide
  have hnumbers : ∀ v ∈ chargeLog.smoothedCharges Ignition.twoHours, FloatOrder.IsNumber v := by
    rw [Log.smoothedCharges, charges_chargeLog]
    decide +kernel
  have hanswers := answers_unless_rejected chargeLog (.ofSeconds 7200) .recharge
    Ignition.twoHours fun _ => hnumbers
  exact ⟨haccepted, hnumbers, hanswers.2 haccepted⟩

end Service

end Telematics
