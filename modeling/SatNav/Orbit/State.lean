import SatNav.Vec3

/-!
# Satellite states

Ranging needs to know of a satellite only where it is and what its clock shows at a
time of transmission. A trajectory is any function that tells, so precise orbits or a
simulator can stand in for a broadcast ephemeris.
-/

namespace SatNav

/-- A satellite at a moment of GPS system time. -/
structure SatelliteState (R : Type) where
  /-- Position [m]. -/
  position : Vec3 R
  /-- Velocity [m/s]. -/
  velocity : Vec3 R
  /-- Satellite clock minus system time [s]. -/
  clockError : R
  /-- Rate of the clock error [s/s]. -/
  clockDrift : R

/-- A satellite as a function of GPS system time [s]. -/
abbrev Trajectory (R : Type) := R → SatelliteState R

end SatNav
