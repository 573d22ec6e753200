import SatNav.Proofs.Exact.Vectors
import SatNav.Proofs.Orbit.Velocity

/-!
# Energy and momentum of a satellite

An ephemeris without drifts and harmonic corrections, `BroadcastEphemeris.IsUndisturbed`, gives
a plain ellipse. Seen from space, where the earth turns under it, a satellite on it has the speed of
the vis-viva law and keeps its angular momentum, whatever the eccentric anomaly.

The plane of the orbit stands still in space, so only the motion within the plane counts:
`Moving.inPlane` takes the plane to space and keeps scalar products.
-/

namespace SatNav

open Exact

/-! ### Points of the plane of an orbit -/

namespace Moving

/-- The point with coordinates `a` and `b` of a plane that is tilted by `i` and turned by `o`. -/
noncomputable def inPlane (i o a b : ℝ) : Vec3 ℝ :=
  ⟨a * Real.cos o - b * Real.cos i * Real.sin o, a * Real.sin o + b * Real.cos i * Real.cos o,
   b * Real.sin i⟩

/-- Tilting and turning a plane keeps scalar products. -/
theorem dot_inPlane (i o a b c d : ℝ) :
    (inPlane i o a b).dot (inPlane i o c d) = a * c + b * d := by
  simp only [Vec3.dot_real, inPlane]
  linear_combination (a * c + b * d * Real.cos i ^ 2) * Real.sin_sq_add_cos_sq o +
    b * d * Real.sin_sq_add_cos_sq i

theorem dot_cross_inPlane (i o a b c d : ℝ) :
    ((inPlane i o a b).cross (inPlane i o c d)).dot ((inPlane i o a b).cross (inPlane i o c d)) =
      (a * d - b * c) ^ 2 := by
  simp only [Vec3.dot_cross_self, dot_inPlane]
  ring

theorem position_eq_inPlane (x y i o : Moving ℝ) :
    position x y i o = inPlane i.value o.value x.value y.value := rfl

variable {r u : Moving ℝ}

theorem radius_sq : (r.abscissa u).value * (r.abscissa u).value +
    (r.ordinate u).value * (r.ordinate u).value = r.value * r.value := by
  simp only [abscissa, ordinate, Scalar.sin_real, Scalar.cos_real]
  linear_combination r.value ^ 2 * Real.sin_sq_add_cos_sq u.value

/-- The square of a speed in the plane, along the radius and across it. -/
theorem speed_sq : (r.abscissa u).rate * (r.abscissa u).rate +
    (r.ordinate u).rate * (r.ordinate u).rate = r.rate ^ 2 + (r.value * u.rate) ^ 2 := by
  simp only [abscissa, ordinate, Scalar.sin_real, Scalar.cos_real]
  linear_combination (r.rate ^ 2 + (r.value * u.rate) ^ 2) * Real.sin_sq_add_cos_sq u.value

/-- Twice the area that the radius sweeps in a unit of time. -/
theorem areal_rate : (r.abscissa u).value * (r.ordinate u).rate -
    (r.ordinate u).value * (r.abscissa u).rate = r.value * (r.value * u.rate) := by
  simp only [abscissa, ordinate, Scalar.sin_real, Scalar.cos_real]
  linear_combination r.value ^ 2 * u.rate * Real.sin_sq_add_cos_sq u.value

end Moving

/-- The velocity of a satellite as seen from space, where the earth-fixed frame turns. -/
noncomputable def SatelliteState.inertialVelocity (s : SatelliteState ℝ) : Vec3 ℝ :=
  ⟨s.velocity.x + -earthRate * s.position.y, s.velocity.y + earthRate * s.position.x,
   s.velocity.z⟩

/-! ### The undisturbed ellipse -/

theorem gravitation_pos : 0 < (gravitation : ℝ) := by
  norm_num [gravitation]

namespace BroadcastEphemeris

/-- An ephemeris without drifts and without harmonic corrections. -/
structure IsUndisturbed (eph : BroadcastEphemeris ℝ) : Prop where
  motionCorrection : eph.motionCorrection = 0
  inclinationRate : eph.inclinationRate = 0
  nodeRate : eph.nodeRate = 0
  latitudeSin : eph.latitudeSin = 0
  latitudeCos : eph.latitudeCos = 0
  radiusSin : eph.radiusSin = 0
  radiusCos : eph.radiusCos = 0
  inclinationSin : eph.inclinationSin = 0
  inclinationCos : eph.inclinationCos = 0

/-- The laws of motion on an ellipse, of a satellite whose eccentric anomaly is `anomaly`. -/
structure MovesOnEllipse (eph : BroadcastEphemeris ℝ) (anomaly : ℝ) (s : SatelliteState ℝ) :
    Prop where
  radius : s.position.length = eph.sqrtAxis ^ 2 * (1 - eph.eccentricity * Real.cos anomaly)
  /-- The ellipse in polar coordinates. -/
  conic : s.position.length *
      (1 + eph.eccentricity * Real.cos (eph.trueAnomaly anomaly).value) =
    eph.sqrtAxis ^ 2 * (1 - eph.eccentricity ^ 2)
  /-- Energy. -/
  visViva : s.inertialVelocity.length ^ 2 =
    gravitation * (2 / s.position.length - 1 / eph.sqrtAxis ^ 2)
  /-- Angular momentum. -/
  momentum : (s.position.cross s.inertialVelocity).length ^ 2 =
    gravitation * eph.sqrtAxis ^ 2 * (1 - eph.eccentricity ^ 2)

variable {eph : BroadcastEphemeris ℝ}

theorem axis_real : eph.axis = eph.sqrtAxis ^ 2 := (pow_two eph.sqrtAxis).symm

theorem axis_pos (h : 0 < eph.sqrtAxis) : 0 < eph.axis := mul_pos h h

section Undisturbed

variable (hplain : eph.IsUndisturbed)
include hplain

theorem IsUndisturbed.radius_eq (anomaly : ℝ) (nu : Moving ℝ) :
    eph.radius anomaly nu =
      ⟨eph.axis * eph.distance anomaly,
       eph.axis * eph.eccentricity * Real.sin anomaly * eph.anomalyRate anomaly⟩ := by
  simp [radius, hplain.radiusSin, hplain.radiusCos]

theorem IsUndisturbed.latitude_rate (nu : Moving ℝ) : (eph.latitude nu).rate = nu.rate := by
  simp [latitude, hplain.latitudeSin, hplain.latitudeCos, one_real]

theorem IsUndisturbed.tilt_rate (nu : Moving ℝ) (t : ℝ) : (eph.tilt nu t).rate = 0 := by
  simp [tilt, hplain.inclinationRate, hplain.inclinationSin, hplain.inclinationCos]

theorem IsUndisturbed.longitude_rate (t : ℝ) : (eph.longitude t).rate = -earthRate := by
  simp [longitude, hplain.nodeRate]

/-- In space the plane of the orbit does not move. -/
theorem IsUndisturbed.inertialVelocity_eq (anomaly t : ℝ) :
    let nu := eph.trueAnomaly anomaly
    let r := eph.radius anomaly nu
    let u := eph.latitude nu
    (eph.stateOf anomaly t).inertialVelocity =
      Moving.inPlane (eph.tilt nu t).value (eph.longitude t).value
        (r.abscissa u).rate (r.ordinate u).rate := by
  simp only [SatelliteState.inertialVelocity, stateOf, Moving.velocity, Moving.inPlane,
    hplain.tilt_rate, hplain.longitude_rate, Scalar.sin_real, Scalar.cos_real]
  congr 1 <;> ring

/-- Kepler's third law. -/
theorem IsUndisturbed.meanMotion_sq (haxis : 0 < eph.sqrtAxis) :
    eph.meanMotion ^ 2 * eph.axis ^ 3 = gravitation := by
  have hpos := axis_pos haxis
  have hcube : Scalar.cube eph.axis = eph.axis ^ 3 := by
    rw [Scalar.cube]
    ring
  have hmotion : eph.meanMotion = √(gravitation / eph.axis ^ 3) := by
    rw [meanMotion, hplain.motionCorrection, zero_mul, add_zero, hcube]
    rfl
  rw [hmotion, Real.sq_sqrt (div_nonneg gravitation_pos.le (pow_pos hpos 3).le),
    div_mul_cancel₀ _ (pow_pos hpos 3).ne']

variable (haxis : 0 < eph.sqrtAxis) (h0 : 0 ≤ eph.eccentricity) (h1 : eph.eccentricity < 1)
  (anomaly t : ℝ)
include haxis h0 h1

theorem IsUndisturbed.length_position :
    (eph.stateOf anomaly t).position.length = eph.axis * eph.distance anomaly := by
  refine Vec3.length_of_dot_self (mul_pos (axis_pos haxis) (distance_pos h0 h1 anomaly)).le ?_
  simp only [stateOf, Moving.position_eq_inPlane, Moving.dot_inPlane, Moving.radius_sq,
    hplain.radius_eq]

omit haxis in
/-- The speed across the radius. -/
theorem IsUndisturbed.radius_mul_latitude_rate :
    let nu := eph.trueAnomaly anomaly
    (eph.radius anomaly nu).value * (eph.latitude nu).rate =
      eph.axis * eph.meanMotion * eph.axisRatio / eph.distance anomaly := by
  have hdistance := (distance_pos h0 h1 anomaly).ne'
  simp only [hplain.radius_eq, hplain.latitude_rate, trueAnomaly, anomalyRate]
  field_simp

/-- The energy depends on the distance and on the axis alone. -/
theorem IsUndisturbed.dot_inertialVelocity :
    let v := (eph.stateOf anomaly t).inertialVelocity
    v.dot v = gravitation * (2 / (eph.axis * eph.distance anomaly) - 1 / eph.axis) := by
  have hpos := (axis_pos haxis).ne'
  have hdistance := (distance_pos h0 h1 anomaly).ne'
  have hratio := axisRatio_mul_self h0 h1
  have hellipse : (eph.eccentricity * Real.sin anomaly) ^ 2 + eph.axisRatio ^ 2 =
      eph.distance anomaly * (2 - eph.distance anomaly) := by
    rw [distance_real]
    linear_combination hratio + eph.eccentricity ^ 2 * Real.sin_sq_add_cos_sq anomaly
  simp only [hplain.inertialVelocity_eq, Moving.dot_inPlane, Moving.speed_sq,
    hplain.radius_mul_latitude_rate h0 h1]
  rw [← hplain.meanMotion_sq haxis, hplain.radius_eq, anomalyRate]
  field_simp
  linear_combination eph.meanMotion ^ 2 * hellipse

/-- The angular momentum is the same all along the orbit. -/
theorem IsUndisturbed.dot_cross_inertialVelocity :
    let s := eph.stateOf anomaly t
    let momentum := s.position.cross s.inertialVelocity
    momentum.dot momentum = gravitation * eph.axis * (1 - eph.eccentricity ^ 2) := by
  have hdistance := (distance_pos h0 h1 anomaly).ne'
  have hratio := axisRatio_mul_self h0 h1
  have hposition : (eph.stateOf anomaly t).position =
      Moving.inPlane (eph.tilt (eph.trueAnomaly anomaly) t).value (eph.longitude t).value
        ((eph.radius anomaly (eph.trueAnomaly anomaly)).abscissa
          (eph.latitude (eph.trueAnomaly anomaly))).value
        ((eph.radius anomaly (eph.trueAnomaly anomaly)).ordinate
          (eph.latitude (eph.trueAnomaly anomaly))).value := rfl
  simp only [hposition, hplain.inertialVelocity_eq, Moving.dot_cross_inPlane, Moving.areal_rate,
    hplain.radius_mul_latitude_rate h0 h1]
  rw [← hplain.meanMotion_sq haxis, hplain.radius_eq]
  field_simp
  linear_combination eph.axis ^ 4 * eph.meanMotion ^ 2 * hratio

end Undisturbed

/-- An undisturbed satellite keeps to the laws of motion on an ellipse at all times, with the
eccentric anomaly that is computed for it as with any other. -/
theorem IsUndisturbed.movesOnEllipse (hplain : eph.IsUndisturbed) (haxis : 0 < eph.sqrtAxis)
    (h0 : 0 ≤ eph.eccentricity) (h1 : eph.eccentricity < 1) (t : ℝ) :
    (∀ anomaly : ℝ, eph.MovesOnEllipse anomaly (eph.stateOf anomaly t)) ∧
      eph.MovesOnEllipse (Kepler.eccentricAnomaly eph.eccentricity (eph.meanAnomalyAt t))
        (eph.state t) := by
  have hlaws (anomaly : ℝ) : eph.MovesOnEllipse anomaly (eph.stateOf anomaly t) := by
    have hdistance := (distance_pos h0 h1 anomaly).ne'
    have hlength := hplain.length_position haxis h0 h1 anomaly t
    refine ⟨?_, ?_, ?_, ?_⟩
    · rw [hlength, axis_real, distance_real]
    · rw [hlength, cos_trueAnomaly h0 h1, axis_real]
      field_simp
      rw [distance_real]
      ring
    · rw [Vec3.length_sq, hplain.dot_inertialVelocity haxis h0 h1, hlength, axis_real]
    · rw [Vec3.length_sq, hplain.dot_cross_inertialVelocity haxis h0 h1, axis_real]
  exact ⟨hlaws, hlaws _⟩

/-- An orbit of eccentricity one half, an hour after its reference time. -/
theorem IsUndisturbed.movesOnEllipse_half :
    let eph : BroadcastEphemeris ℝ :=
      { weekNumber := 0, groupDelay := 0, ageOfData := 0, fitInterval := false
        clockTime := 0, clockBias := 0, clockRate := 0, clockAging := 0
        orbitTime := 388800, sqrtAxis := 5153.6, motionCorrection := 0, meanAnomaly := 0.3
        eccentricity := 1 / 2, perigee := -0.6, node := 0.25, nodeRate := 0
        latitudeSin := 0, latitudeCos := 0, radiusSin := 0, radiusCos := 0
        inclinationSin := 0, inclinationCos := 0
        inclination := 0.31, inclinationRate := 0, issueOfData := 0 }
    eph.IsUndisturbed ∧ 0 < eph.sqrtAxis ∧ 0 ≤ eph.eccentricity ∧ eph.eccentricity < 1 ∧
      (eph.state 392400).inertialVelocity.length ^ 2 =
        gravitation * (2 / (eph.state 392400).position.length - 1 / 5153.6 ^ 2) := by
  intro eph
  have hplain : eph.IsUndisturbed := ⟨rfl, rfl, rfl, rfl, rfl, rfl, rfl, rfl, rfl⟩
  have haxis : 0 < eph.sqrtAxis := by norm_num [eph]
  have h0 : 0 ≤ eph.eccentricity := by norm_num [eph]
  have h1 : eph.eccentricity < 1 := by norm_num [eph]
  exact ⟨hplain, haxis, h0, h1, (hplain.movesOnEllipse haxis h0 h1 392400).2.visViva⟩

end BroadcastEphemeris

end SatNav
