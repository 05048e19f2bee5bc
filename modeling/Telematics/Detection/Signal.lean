/-!
# Signals that detection reads

The names of the signals of a vehicle that the detectors ask for.
-/

set_option autoImplicit false

namespace Telematics.Signal

/-- Ignition, 1 for on and 0 for off. -/
def ignition : String := "isIgnitionOn"

/-- Engine speed in revolutions per minute. -/
def engineSpeed : String := "powertrainCombustionEngineSpeed"

/-- Fuel level in percent. -/
def fuelLevel : String := "powertrainFuelSystemRelativeLevel"

/-- State of charge of the traction battery in percent. -/
def stateOfCharge : String := "powertrainTractionBatteryStateOfChargeCurrent"

/-- Distance travelled in kilometres. -/
def odometer : String := "powertrainTransmissionTravelledDistance"

end Telematics.Signal
