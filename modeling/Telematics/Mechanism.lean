import Telematics.Text.Blank

/-!
# Mechanisms of detection

The seven ways to find segments, their stable names, and the names by which they can be asked for:
the stable name or a longer one, in any mixture of ASCII capitals and small letters.
-/

set_option autoImplicit false

namespace Telematics

/-- A way to find segments. -/
inductive Mechanism where
  /-- Trips between ignition on and off. -/
  | ignition
  /-- Trips from windows in which many readings arrived. -/
  | frequency
  /-- Trips from the points where the rate of arrivals changes. -/
  | changePoint
  /-- Idling from the samples of the engine speed. -/
  | idling
  /-- Idling from windows of the engine speed. -/
  | staticRpm
  /-- Refuels from rises of the fuel level. -/
  | refuel
  /-- Recharges from rises of the state of charge. -/
  | recharge
deriving DecidableEq

namespace Mechanism

/-- All mechanisms, in the order in which they are announced. -/
def all : List Mechanism :=
  [ignition, frequency, changePoint, idling, staticRpm, refuel, recharge]

/-- The stable name. -/
def name : Mechanism → String
  | ignition => "ignition"
  | frequency => "frequency"
  | changePoint => "changePoint"
  | idling => "idling"
  | staticRpm => "staticRpm"
  | refuel => "refuel"
  | recharge => "recharge"

/-- The mechanism of exactly this stable name. -/
def ofExactName? (s : String) : Option Mechanism := all.find? fun m => m.name == s

/-- The mechanism that a name asks for. -/
def ofName? (s : String) : Option Mechanism :=
  match Text.lowerAscii s with
  | "ignition" | "ignitiondetection" => some ignition
  | "frequency" | "frequencyanalysis" => some frequency
  | "changepoint" | "changepointdetection" => some changePoint
  | "idling" | "idlingrpm" => some idling
  | "staticrpm" => some staticRpm
  | "refuel" => some refuel
  | "recharge" => some recharge
  | _ => none

end Mechanism

end Telematics
