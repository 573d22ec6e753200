import SatNav.Earth
import SatNav.Vec3

/-!
# Positions on the ellipsoid

`Geodetic.ofEcef` converts an earth-fixed position to latitude, longitude and height
by Bowring's closed form, and `lookAngles` gives the direction in which a target is
seen from a position, in the north-east-down frame there.
-/

namespace SatNav

/-- Latitude and longitude [rad] and the height above the ellipsoid [m]. -/
structure Geodetic (R : Type) where
  latitude : R
  longitude : R
  height : R

/-- Azimuth, clockwise from north, and elevation, both in radians. -/
structure LookAngles (R : Type) where
  azimuth : R
  elevation : R

variable {R : Type} [Scalar R]

/-- Square of the first eccentricity of the ellipsoid. -/
def firstEccentricitySq : R :=
  (equatorialRadius * equatorialRadius - polarRadius * polarRadius) /
    (equatorialRadius * equatorialRadius)

/-- Square of the second eccentricity of the ellipsoid. -/
def secondEccentricitySq : R :=
  (equatorialRadius * equatorialRadius - polarRadius * polarRadius) /
    (polarRadius * polarRadius)

def Geodetic.ofEcef (v : Vec3 R) : Geodetic R :=
  let a : R := equatorialRadius
  let b : R := polarRadius
  let e1 : R := firstEccentricitySq
  let e2 : R := secondEccentricitySq
  let p := Scalar.sqrt (v.x * v.x + v.y * v.y)
  let r := Scalar.sqrt (p * p + v.z * v.z)
  let beta := Scalar.atan (((b * v.z) / (a * p)) * (1.0 + e2 * (b / r)))
  let latitude := Scalar.atan2
    (v.z + (e2 * b * Scalar.cube (Scalar.sin beta)))
    (p - (e1 * a * Scalar.cube (Scalar.cos beta)))
  let longitude := Scalar.atan2 v.y v.x
  let normal := a / Scalar.sqrt (1.0 - (e1 * Scalar.square (Scalar.sin latitude)))
  let height := p * Scalar.cos latitude + v.z * Scalar.sin latitude - (a * a / normal)
  ⟨latitude, longitude, height⟩

/-- The rotation from the earth-fixed frame to north, east and down at a latitude and longitude. -/
def northEastDown (latitude longitude : R) : Matrix3 R :=
  let sp := Scalar.sin latitude
  let cp := Scalar.cos latitude
  let sl := Scalar.sin longitude
  let cl := Scalar.cos longitude
  ⟨⟨-sp * cl, -sp * sl, cp⟩, ⟨-sl, cl, 0.0⟩, ⟨-cp * cl, -cp * sl, -sp⟩⟩

def LookAngles.ofLocal (v : Vec3 R) : LookAngles R :=
  let horizontal := Scalar.sqrt (Scalar.square v.x + Scalar.square v.y)
  let azimuth := Scalar.atan2 v.y v.x
  ⟨if azimuth < 0.0 then azimuth + 2.0 * Scalar.pi else azimuth,
   Scalar.atan2 (-v.z) horizontal⟩

/-- The direction in which `target` is seen from `reference`. -/
def lookAngles (target reference : Vec3 R) : LookAngles R :=
  let site := Geodetic.ofEcef reference
  .ofLocal ((northEastDown site.latitude site.longitude).apply (target.sub reference))

end SatNav
