import SatNav.Geodesy
import SatNav.Ranging.Pseudorange

/-!
# Tropospheric delays

A model of the troposphere gives the delay of a signal from its elevation. The
elevations are those seen from a fixed reference position, so an error in it biases
the correction, mostly for low satellites.
-/

namespace SatNav

/-- Delay [m] as a function of the elevation [rad]. -/
abbrev DelayModel (R : Type) := R → R

/-- What a model takes off a pseudorange, and the direction that it takes it from. -/
structure DelayCorrection (R : Type) where
  direction : LookAngles R
  delay : R

variable {R : Type} [Scalar R]

/-- A zenith delay of 2.47 m with a cosecant mapping. The constant in the denominator keeps the
delay finite at the horizon. -/
def cosecantDelay : DelayModel R := fun elevation => 2.47 / (Scalar.sin elevation + 0.0121)

def DelayCorrection.ofModel (model : DelayModel R) (reference satellite : Vec3 R) :
    DelayCorrection R :=
  let direction := lookAngles satellite reference
  ⟨direction, model direction.elevation⟩

/-- A measurement less the delay of a correction. -/
def RangeMeasurement.correct (m : RangeMeasurement R) (c : DelayCorrection R) :
    RangeMeasurement R :=
  { m with range := m.range - c.delay }

/-- Measurements less the delay that a model gives for each satellite. -/
def correctDelays (model : DelayModel R) (reference : Vec3 R)
    (measurements : List (RangeMeasurement R)) : List (RangeMeasurement R) :=
  measurements.map fun m => m.correct (.ofModel model reference m.position)

end SatNav
