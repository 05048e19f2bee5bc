import Telematics.Detection.Arrivals
import Telematics.Detection.Idling
import Telematics.Detection.Ignition
import Telematics.Detection.Recharge
import Telematics.Detection.Refuel

/-!
# Detection

The plan of each mechanism for a request. The present only matters to mechanisms that can find an
activity that is still in progress after its last reading.
-/

set_option autoImplicit false

namespace Telematics

/-- What a mechanism does to find the segments of a request. -/
def Mechanism.plan (m : Mechanism) (now : Instant) (r : Request) : Plan (List Segment) :=
  match m with
  | .ignition => Ignition.plan r
  | .frequency => Arrivals.frequencyPlan r now
  | .changePoint => Arrivals.changePointPlan r now
  | .idling => Idling.samplePlan r now
  | .staticRpm => Idling.windowPlan r now
  | .refuel => Refuel.plan r
  | .recharge => Recharge.plan r

/-- The segments that a mechanism finds in what a source answers. -/
def Mechanism.detect (m : Mechanism) (source : Source) (now : Instant) (r : Request) :
    Run (List Segment) :=
  (m.plan now r).run source

end Telematics
