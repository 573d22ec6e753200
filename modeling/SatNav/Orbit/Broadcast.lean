import SatNav.Earth
import SatNav.Orbit.Kepler
import SatNav.Orbit.State

/-!
# Broadcast ephemerides

The orbit of a satellite is an ellipse with slow drifts and with corrections of
twice its orbital frequency, given in the earth-fixed frame. Each quantity on the way
from the eccentric anomaly to the position is `Moving`: its rate of change is carried
along with it, and so the velocity is that of the position.

`BroadcastEphemeris.stateOf` evaluates position, velocity and clock for a given
eccentric anomaly, and `BroadcastEphemeris.state` for the one that Kepler's equation
yields. Angles and angular rates of an ephemeris are in semicircles and semicircles a
second; the functions here give radians.
-/

namespace SatNav

/-- A quantity and its rate of change. -/
structure Moving (R : Type) where
  value : R
  rate : R

/-- Orbit and clock of a satellite as its navigation message gives them. -/
structure BroadcastEphemeris (R : Type) where
  weekNumber : UInt16
  /-- Group delay of the L1 signal [s]. -/
  groupDelay : R
  /-- Age of the correction data. -/
  ageOfData : UInt8
  fitInterval : Bool
  /-- Reference time of the clock terms [s]. -/
  clockTime : R
  /-- Clock error at the reference time [s], its rate [s/s] and the rate of that [s/s^2]. -/
  clockBias : R
  clockRate : R
  clockAging : R
  /-- Reference time of the orbit [s]. -/
  orbitTime : R
  /-- Square root of the semi-major axis [m^(1/2)]. -/
  sqrtAxis : R
  /-- Correction of the mean motion. -/
  motionCorrection : R
  /-- Mean anomaly at the reference time. -/
  meanAnomaly : R
  eccentricity : R
  perigee : R
  /-- Longitude of the ascending node at the beginning of the week. -/
  node : R
  nodeRate : R
  /-- Harmonic corrections of the argument of latitude [rad], sine and cosine. -/
  latitudeSin : R
  latitudeCos : R
  /-- Harmonic corrections of the radius [m], sine and cosine. -/
  radiusSin : R
  radiusCos : R
  /-- Harmonic corrections of the inclination [rad], sine and cosine. -/
  inclinationSin : R
  inclinationCos : R
  /-- Inclination at the reference time. -/
  inclination : R
  inclinationRate : R
  issueOfData : UInt16

variable {R : Type} [Scalar R]

/-- A time difference, moved by a week where it is longer than half of one. -/
def withinHalfWeek (dt : R) : R :=
  if halfWeek < dt then dt - 2.0 * halfWeek
  else if dt < -halfWeek then dt + 2.0 * halfWeek
  else dt

namespace BroadcastEphemeris

variable (eph : BroadcastEphemeris R)

/-! ### Clock -/

/-- Time since the reference time of the clock [s]. -/
def clockInterval (t : R) : R := withinHalfWeek (t - eph.clockTime)

/-- Polynomial part of the clock error, without relativity and group delay [s]. -/
def clockPolynomial (t : R) : R :=
  let dt := eph.clockInterval t
  eph.clockBias + eph.clockRate * dt + eph.clockAging * Scalar.square dt

/-! ### Ellipse -/

/-- Time since the reference time of the orbit [s]. -/
def orbitInterval (t : R) : R := withinHalfWeek (t - eph.orbitTime)

/-- Semi-major axis [m]. -/
def axis : R := Scalar.square eph.sqrtAxis

/-- Corrected mean motion [rad/s]. -/
def meanMotion : R :=
  Scalar.sqrt (gravitation / Scalar.cube eph.axis) + (eph.motionCorrection * Scalar.pi)

def meanAnomalyAt (t : R) : R :=
  (eph.meanAnomaly * Scalar.pi) + eph.meanMotion * eph.orbitInterval t

/-- Distance from the focus in semi-major axes. -/
def distance (anomaly : R) : R := 1.0 - eph.eccentricity * Scalar.cos anomaly

/-- Ratio of the axes of the ellipse. -/
def axisRatio : R := Scalar.sqrt (1.0 - Scalar.square eph.eccentricity)

def anomalyRate (anomaly : R) : R := eph.meanMotion / eph.distance anomaly

def trueAnomaly (anomaly : R) : Moving R where
  value := Scalar.atan2
    ((eph.axisRatio * Scalar.sin anomaly) / eph.distance anomaly)
    ((Scalar.cos anomaly - eph.eccentricity) / eph.distance anomaly)
  rate := eph.anomalyRate anomaly * eph.axisRatio / eph.distance anomaly

/-! ### Harmonic corrections

These take the true anomaly `nu`. The corrections are at twice the argument of
latitude that it has without them.
-/

/-- Argument of latitude without corrections. -/
def plainLatitude (nu : Moving R) : R := nu.value + (eph.perigee * Scalar.pi)

def latitude (nu : Moving R) : Moving R :=
  let phi := eph.plainLatitude nu
  let s2 := Scalar.sin (2.0 * phi)
  let c2 := Scalar.cos (2.0 * phi)
  ⟨phi + eph.latitudeSin * s2 + eph.latitudeCos * c2,
   nu.rate * (1.0 + 2.0 * (eph.latitudeSin * c2 - eph.latitudeCos * s2))⟩

/-- Radius [m]. -/
def radius (anomaly : R) (nu : Moving R) : Moving R :=
  let phi := eph.plainLatitude nu
  let s2 := Scalar.sin (2.0 * phi)
  let c2 := Scalar.cos (2.0 * phi)
  ⟨eph.axis * eph.distance anomaly + eph.radiusSin * s2 + eph.radiusCos * c2,
   eph.axis * eph.eccentricity * Scalar.sin anomaly * eph.anomalyRate anomaly +
     2.0 * nu.rate * (eph.radiusSin * c2 - eph.radiusCos * s2)⟩

def tilt (nu : Moving R) (t : R) : Moving R :=
  let phi := eph.plainLatitude nu
  let s2 := Scalar.sin (2.0 * phi)
  let c2 := Scalar.cos (2.0 * phi)
  let drift := eph.inclinationRate * Scalar.pi
  ⟨(eph.inclination * Scalar.pi) + eph.inclinationSin * s2 + eph.inclinationCos * c2 +
     drift * eph.orbitInterval t,
   drift + 2.0 * nu.rate * (eph.inclinationSin * c2 - eph.inclinationCos * s2)⟩

/-- Longitude of the ascending node in the turning frame of the earth. -/
def longitude (t : R) : Moving R :=
  let drift := (eph.nodeRate * Scalar.pi) - earthRate
  ⟨(eph.node * Scalar.pi) + drift * eph.orbitInterval t - earthRate * eph.orbitTime, drift⟩

end BroadcastEphemeris

/-! ### From the plane of the orbit to the earth-fixed frame -/

namespace Moving

/-- Abscissa of a point of the plane at radius `r` and angle `u`. -/
def abscissa (r u : Moving R) : Moving R :=
  let y := r.value * Scalar.sin u.value
  ⟨r.value * Scalar.cos u.value, r.rate * Scalar.cos u.value - y * u.rate⟩

/-- Ordinate of a point of the plane at radius `r` and angle `u`. -/
def ordinate (r u : Moving R) : Moving R :=
  let x := r.value * Scalar.cos u.value
  ⟨r.value * Scalar.sin u.value, r.rate * Scalar.sin u.value + x * u.rate⟩

/-- Where a point of a plane is when the plane is tilted by `i` and turned by `o`. -/
def position (x y i o : Moving R) : Vec3 R :=
  let so := Scalar.sin o.value
  let co := Scalar.cos o.value
  let si := Scalar.sin i.value
  let ci := Scalar.cos i.value
  ⟨x.value * co - y.value * ci * so, x.value * so + y.value * ci * co, y.value * si⟩

/-- How the point of `position` moves. -/
def velocity (x y i o : Moving R) : Vec3 R :=
  let so := Scalar.sin o.value
  let co := Scalar.cos o.value
  let si := Scalar.sin i.value
  let ci := Scalar.cos i.value
  let p := position x y i o
  ⟨x.rate * co - y.rate * ci * so + y.value * si * so * i.rate - p.y * o.rate,
   x.rate * so + y.rate * ci * co - y.value * si * co * i.rate + p.x * o.rate,
   y.rate * si + y.value * ci * i.rate⟩

end Moving

namespace BroadcastEphemeris

variable (eph : BroadcastEphemeris R)

/-- Relativistic part of the clock error [s]. -/
def relativity (anomaly : R) : Moving R where
  value := relativityFactor * eph.eccentricity * eph.sqrtAxis * Scalar.sin anomaly
  rate := relativityFactor * eph.eccentricity * eph.sqrtAxis * Scalar.cos anomaly *
    eph.anomalyRate anomaly

/-- Position, velocity and clock at time `t`, when the eccentric anomaly is `anomaly`. The clock
error has the relativistic term and is less the group delay. -/
def stateOf (anomaly t : R) : SatelliteState R :=
  let nu := eph.trueAnomaly anomaly
  let u := eph.latitude nu
  let r := eph.radius anomaly nu
  let x := r.abscissa u
  let y := r.ordinate u
  let i := eph.tilt nu t
  let o := eph.longitude t
  let relativity := eph.relativity anomaly
  { position := x.position y i o
    velocity := x.velocity y i o
    clockError := eph.clockPolynomial t + relativity.value - eph.groupDelay
    clockDrift := eph.clockRate + 2.0 * eph.clockAging * eph.clockInterval t + relativity.rate }

def state (t : R) : SatelliteState R :=
  eph.stateOf (Kepler.eccentricAnomaly eph.eccentricity (eph.meanAnomalyAt t)) t

end BroadcastEphemeris

end SatNav
