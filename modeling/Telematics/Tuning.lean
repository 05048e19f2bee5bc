import Telematics.Time.Instant

/-!
# Tunables of a request

Each tunable may be left out; the detector that reads it then uses a default of its own.
`Tuning.firstOutside` finds the first tunable, in a fixed order, whose value lies outside its range.
-/

set_option autoImplicit false

namespace Telematics

/-- The tunables by name. -/
inductive Tunable where
  /-- The shortest time off that ends a trip. -/
  | minIdle
  /-- The shortest segment. -/
  | minSegment
  /-- The least number of arrivals in an active window. -/
  | signalCount
  /-- The longest gap inside a segment. -/
  | maxGap
  /-- The highest engine speed of an idling engine. -/
  | maxIdleRpm
  /-- The least increase of a level. -/
  | minIncrease
deriving DecidableEq

namespace Tunable

/-- The name in requests and messages. -/
def name : Tunable → String
  | minIdle => "minIdleSeconds"
  | minSegment => "minSegmentDurationSeconds"
  | signalCount => "signalCountThreshold"
  | maxGap => "maxGapSeconds"
  | maxIdleRpm => "maxIdleRpm"
  | minIncrease => "minIncreasePercent"

/-- The least allowed value; an increase of zero is not allowed all the same. -/
def low : Tunable → Nat
  | minIdle => 60
  | minSegment => 1
  | signalCount => 3
  | maxGap => 1
  | maxIdleRpm => 100
  | minIncrease => 0

/-- The greatest allowed value. -/
def high : Tunable → Nat
  | minIdle => 3600
  | minSegment => 3600
  | signalCount => 100
  | maxGap => 7200
  | maxIdleRpm => 5000
  | minIncrease => 100

/-- A whole number is allowed. -/
def allows (t : Tunable) (v : Int) : Bool := decide ((t.low : Int) ≤ v) && decide (v ≤ t.high)

end Tunable

/-- The tunables of one request. -/
structure Tuning where
  /-- The shortest time off that ends a trip, in seconds. -/
  minIdleSeconds : Option Int
  /-- The shortest segment, in seconds. -/
  minSegmentSeconds : Option Int
  /-- The least number of arrivals in an active window. -/
  signalCountThreshold : Option Nat
  /-- The longest gap inside a segment, in seconds. -/
  maxGapSeconds : Option Int
  /-- The highest engine speed of an idling engine. -/
  maxIdleRpm : Option Float
  /-- The least increase of a level, in percent or percentage points. -/
  minIncreasePercent : Option Float
deriving DecidableEq

namespace Tuning

/-- Every tunable left out. -/
def default : Tuning := ⟨none, none, none, none, none, none⟩

/-- A tunable with a value that it does not allow. -/
structure Outside where
  tunable : Tunable
  value : Float

/-- A whole number that is not allowed. -/
def outsideInt (t : Tunable) (v : Int) : Option Outside :=
  if t.allows v then none else some ⟨t, Float.ofInt v⟩

/-- An engine speed that is not allowed; what is no number never is. -/
def outsideRpm (v : Float) : Option Outside :=
  if 100.0 ≤ v ∧ v ≤ 5000.0 then none else some ⟨.maxIdleRpm, v⟩

/-- An increase that is not allowed: it must be above zero and at most 100. -/
def outsideIncrease (v : Float) : Option Outside :=
  if 0.0 < v ∧ v ≤ 100.0 then none else some ⟨.minIncrease, v⟩

/-- The first tunable with a value that it does not allow. -/
def firstOutside (t : Tuning) : Option Outside :=
  (t.minIdleSeconds.bind (outsideInt .minIdle))
  <|> (t.minSegmentSeconds.bind (outsideInt .minSegment))
  <|> (t.signalCountThreshold.bind fun n => outsideInt .signalCount n)
  <|> (t.maxGapSeconds.bind (outsideInt .maxGap))
  <|> (t.maxIdleRpm.bind outsideRpm)
  <|> (t.minIncreasePercent.bind outsideIncrease)

/-- The shortest time off that ends a trip. -/
def minIdle (t : Tuning) (defaultSeconds : Int) : Span :=
  Span.seconds (t.minIdleSeconds.getD defaultSeconds)

/-- The shortest segment. -/
def minSegment (t : Tuning) (defaultSeconds : Int) : Span :=
  Span.seconds (t.minSegmentSeconds.getD defaultSeconds)

/-- The longest gap inside a segment. -/
def maxGap (t : Tuning) (defaultSeconds : Int) : Span :=
  Span.seconds (t.maxGapSeconds.getD defaultSeconds)

/-- The least number of arrivals in an active window. -/
def countThreshold (t : Tuning) (defaultCount : Nat) : Nat :=
  t.signalCountThreshold.getD defaultCount

/-- The highest engine speed of an idling engine. -/
def idleRpm (t : Tuning) (defaultRpm : Float) : Float := t.maxIdleRpm.getD defaultRpm

/-- The least increase of a level. -/
def minIncrease (t : Tuning) (defaultIncrease : Float) : Float :=
  t.minIncreasePercent.getD defaultIncrease

end Tuning

end Telematics
