import SatNav.Scalar

/-!
# The earth and its satellites

Values of the WGS-84 reference system and of the GPS interface specification, as
decimal literals.
-/

namespace SatNav

variable {R : Type} [Scalar R]

/-- Gravitational constant of the earth [m^3/s^2]. -/
@[inline] def gravitation : R := 3.986005e14

/-- Rotation rate of the earth [rad/s]. -/
@[inline] def earthRate : R := 7.2921151467e-5

/-- Factor of the relativistic clock correction [s/m^(1/2)]. -/
@[inline] def relativityFactor : R := -4.442807633e-10

/-- Half of a week [s]. -/
@[inline] def halfWeek : R := 302400.0

/-- Equatorial radius of the ellipsoid [m]. -/
@[inline] def equatorialRadius : R := 6378137.0

/-- Polar radius of the ellipsoid [m]. -/
@[inline] def polarRadius : R := 6356752.314245

end SatNav
