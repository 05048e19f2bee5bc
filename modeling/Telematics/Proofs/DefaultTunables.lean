import Telematics.Proofs.ValidRequests
import Telematics.Service

/-!
# What tunables default to

A tunable that is left out means a default of the mechanism (`Mechanism.defaults`). Filling the
defaults in changes neither whether a request is rejected nor what is read and found, so that a call
with a tunable left out is the call with its default (`Service.getSegments_filled`). A mechanism has
no default for a tunable that it does not look at; the mechanisms that count arrivals have none for
the longest gap, in whose place they take the shortest time off.
-/

set_option autoImplicit false

namespace Telematics

/-- A tuning in which what is left out is taken from another one. -/
def Tuning.filled (t d : Tuning) : Tuning :=
  ⟨t.minIdleSeconds.or d.minIdleSeconds, t.minSegmentSeconds.or d.minSegmentSeconds,
    t.signalCountThreshold.or d.signalCountThreshold, t.maxGapSeconds.or d.maxGapSeconds,
    t.maxIdleRpm.or d.maxIdleRpm, t.minIncreasePercent.or d.minIncreasePercent⟩

/-- What a mechanism takes for a tunable that is left out. -/
def Mechanism.defaults : Mechanism → Tuning
  | .ignition => ⟨some 600, some 150, none, none, none, none⟩
  | .frequency => ⟨some 600, some 240, some 12, none, none, none⟩
  | .changePoint => ⟨some 600, some 240, none, none, none, none⟩
  | .idling => ⟨none, some 240, none, some 300, some 1000.0, none⟩
  | .staticRpm => ⟨none, some 240, some 3, some 300, some 1000.0, none⟩
  | .refuel => ⟨none, some 60, none, none, none, some 30.0⟩
  | .recharge => ⟨none, some 60, none, none, none, some 1.0⟩

/-- A request with the defaults of a mechanism for the tunables that it leaves out. -/
def Request.filled (r : Request) (m : Mechanism) : Request :=
  { r with tuning := r.tuning.filled m.defaults }

namespace Tuning

variable {t d : Tuning}

/-! ## One tunable -/

/-- A value that is left out is the same one whether its default is filled in or not. -/
theorem getD_or_of_getD_eq {α : Type} {o o' : Option α} {default : α}
    (h : o'.getD default = default) : (o.or o').getD default = o.getD default := by
  rw [Option.getD_or, h]

theorem minIdle_filled {default : Int} (h : d.minIdleSeconds.getD default = default) :
    (t.filled d).minIdle default = t.minIdle default :=
  congrArg Span.seconds (getD_or_of_getD_eq h)

theorem minSegment_filled {default : Int} (h : d.minSegmentSeconds.getD default = default) :
    (t.filled d).minSegment default = t.minSegment default :=
  congrArg Span.seconds (getD_or_of_getD_eq h)

theorem countThreshold_filled {default : Nat}
    (h : d.signalCountThreshold.getD default = default) :
    (t.filled d).countThreshold default = t.countThreshold default := getD_or_of_getD_eq h

theorem maxGap_filled {default : Int} (h : d.maxGapSeconds.getD default = default) :
    (t.filled d).maxGap default = t.maxGap default :=
  congrArg Span.seconds (getD_or_of_getD_eq h)

theorem idleRpm_filled {default : Float} (h : d.maxIdleRpm.getD default = default) :
    (t.filled d).idleRpm default = t.idleRpm default := getD_or_of_getD_eq h

theorem minIncrease_filled {default : Float} (h : d.minIncreasePercent.getD default = default) :
    (t.filled d).minIncrease default = t.minIncrease default := getD_or_of_getD_eq h

/-- Where no default is outside its range, filling in defaults leaves what is outside. -/
theorem firstOutside_filled (h : d.firstOutside = none) :
    (t.filled d).firstOutside = t.firstOutside := by
  have hbind {α : Type} (o o' : Option α) (outside : α → Option Outside)
      (ho' : o'.bind outside = none) : (o.or o').bind outside = o.bind outside := by
    cases o with
    | none => rw [Option.none_or, ho', Option.bind_none]
    | some a => rw [Option.some_or]
  obtain ⟨hidle, hsegment, hcount, hgap, hrpm, hincrease⟩ := firstOutside_eq_none_iff.1 h
  simp only [firstOutside, filled, hbind, hidle, hsegment, hcount, hgap, hrpm, hincrease]

end Tuning

/-- Every default is inside its range. -/
theorem Mechanism.firstOutside_defaults (m : Mechanism) : m.defaults.firstOutside = none := by
  cases m <;> decide +kernel

/-- Filling the defaults in changes no reason to reject a request. -/
theorem Request.rejection_filled (r : Request) (m : Mechanism) (now : Instant) :
    (r.filled m).rejection now = r.rejection now := by
  simp only [rejection, filled, Tuning.firstOutside_filled m.firstOutside_defaults]

/-! ## The plans

The reads of a plan are told by the tunables too, so that the values that count are compared before
the plans are. -/

theorem Ignition.plan_filled (r : Request) : plan (r.filled .ignition) = plan r := by
  have hidle : (r.filled .ignition).tuning.minIdle defaultMinIdle =
      r.tuning.minIdle defaultMinIdle := Tuning.minIdle_filled rfl
  have hmin : (r.filled .ignition).tuning.minSegment defaultMinSegment =
      r.tuning.minSegment defaultMinSegment := Tuning.minSegment_filled rfl
  dsimp only [plan, segments]
  rw [hidle, hmin]
  rfl

/-- Where the longest gap has no default, the default of the shortest time off stands for both. -/
theorem Arrivals.gap_filled {t d : Tuning} (hgap : d.maxGapSeconds = none)
    (hidle : d.minIdleSeconds.getD defaultGap = defaultGap) : gap (t.filled d) = gap t := by
  have hseconds : (t.filled d).minIdleSeconds.getD defaultGap = t.minIdleSeconds.getD defaultGap :=
    Tuning.getD_or_of_getD_eq hidle
  rw [gap, gap, hseconds]
  exact Tuning.maxGap_filled (by rw [hgap, Option.getD_none])

theorem Arrivals.frequencyPlan_filled (r : Request) (now : Instant) :
    frequencyPlan (r.filled .frequency) now = frequencyPlan r now := by
  have hgap : gap (r.filled .frequency).tuning = gap r.tuning := gap_filled rfl rfl
  have hmin : minDuration (r.filled .frequency).tuning = minDuration r.tuning :=
    Tuning.minSegment_filled rfl
  have hcount : (r.filled .frequency).tuning.countThreshold defaultThreshold =
      r.tuning.countThreshold defaultThreshold := Tuning.countThreshold_filled rfl
  dsimp only [frequencyPlan, frequencyQuery, segmentsOf]
  rw [hgap, hmin, hcount]
  rfl

theorem Arrivals.changePointPlan_filled (r : Request) (now : Instant) :
    changePointPlan (r.filled .changePoint) now = changePointPlan r now := by
  have hgap : gap (r.filled .changePoint).tuning = gap r.tuning := gap_filled rfl rfl
  have hmin : minDuration (r.filled .changePoint).tuning = minDuration r.tuning :=
    Tuning.minSegment_filled rfl
  dsimp only [changePointPlan, changePointQuery, slots, lookbackStart, segmentsOf]
  rw [hgap, hmin]
  rfl

theorem Idling.samplePlan_filled (r : Request) (now : Instant) :
    samplePlan (r.filled .idling) now = samplePlan r now := by
  have hgap : gap (r.filled .idling).tuning = gap r.tuning := Tuning.maxGap_filled rfl
  have hmin : minDuration (r.filled .idling).tuning = minDuration r.tuning :=
    Tuning.minSegment_filled rfl
  have hceiling : ceiling (r.filled .idling).tuning = ceiling r.tuning :=
    Tuning.idleRpm_filled rfl
  dsimp only [samplePlan, read, segments]
  rw [hgap, hmin, hceiling]
  rfl

theorem Idling.windowPlan_filled (r : Request) (now : Instant) :
    windowPlan (r.filled .staticRpm) now = windowPlan r now := by
  have hgap : gap (r.filled .staticRpm).tuning = gap r.tuning := Tuning.maxGap_filled rfl
  have hmin : minDuration (r.filled .staticRpm).tuning = minDuration r.tuning :=
    Tuning.minSegment_filled rfl
  have hceiling : ceiling (r.filled .staticRpm).tuning = ceiling r.tuning :=
    Tuning.idleRpm_filled rfl
  have hcount : (r.filled .staticRpm).tuning.countThreshold defaultThreshold =
      r.tuning.countThreshold defaultThreshold := Tuning.countThreshold_filled rfl
  dsimp only [windowPlan, windowQuery, windowSegments]
  rw [hgap, hmin, hceiling, hcount]
  rfl

theorem Refuel.plan_filled (r : Request) : plan (r.filled .refuel) = plan r := by
  have hincrease : (r.filled .refuel).tuning.minIncrease defaultIncrease =
      r.tuning.minIncrease defaultIncrease := Tuning.minIncrease_filled rfl
  have hmin : (r.filled .refuel).tuning.minSegment defaultMinSegment =
      r.tuning.minSegment defaultMinSegment := Tuning.minSegment_filled rfl
  dsimp only [plan]
  rw [hincrease, hmin]
  rfl

theorem Recharge.plan_filled (r : Request) : plan (r.filled .recharge) = plan r := by
  have hincrease : (r.filled .recharge).tuning.minIncrease defaultIncrease =
      r.tuning.minIncrease defaultIncrease := Tuning.minIncrease_filled rfl
  have hmin : (r.filled .recharge).tuning.minSegment defaultMinSegment =
      r.tuning.minSegment defaultMinSegment := Tuning.minSegment_filled rfl
  have hwith : planWith (r.filled .recharge) = planWith r := by
    funext charge
    dsimp only [planWith]
    rw [hincrease, hmin]
    rfl
  exact congrArg (Plan.ask _) hwith

/-- Filling the defaults in changes nothing that is read or found. -/
theorem Mechanism.plan_filled (m : Mechanism) (now : Instant) (r : Request) :
    m.plan now (r.filled m) = m.plan now r := by
  cases m with
  | ignition => exact Ignition.plan_filled r
  | frequency => exact Arrivals.frequencyPlan_filled r now
  | changePoint => exact Arrivals.changePointPlan_filled r now
  | idling => exact Idling.samplePlan_filled r now
  | staticRpm => exact Idling.windowPlan_filled r now
  | refuel => exact Refuel.plan_filled r
  | recharge => exact Recharge.plan_filled r

/-- A call with a tunable left out is the call with its default. -/
theorem Service.getSegments_filled (s : Service) (m : Mechanism) (r : Request) :
    s.getSegments m (r.filled m) = s.getSegments m r := by
  rw [getSegments, getSegments, Request.rejection_filled, Mechanism.detect, Mechanism.detect,
    Mechanism.plan_filled]

end Telematics
