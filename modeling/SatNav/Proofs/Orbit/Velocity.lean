import SatNav.Proofs.Orbit.Kepler
import SatNav.Proofs.Orbit.Moving
import SatNav.Proofs.Exact.Directions

/-!
# The velocity of a satellite

With the eccentric anomaly that solves Kepler's equation, every quantity on the way to the
position of a satellite moves with its rate, and so the velocity is the derivative of the
position and the clock drift that of the clock error. What is excepted are the moments at
which a time difference is moved by a week.
-/

namespace SatNav

open Exact Filter

/-! ### Time differences -/

theorem halfWeek_real : (halfWeek : ℝ) = 302400 := by
  norm_num [halfWeek]

theorem withinHalfWeek_real (d : ℝ) :
    withinHalfWeek d =
      if 302400 < d then d - 604800 else if d < -302400 then d + 604800 else d := by
  unfold withinHalfWeek
  rw [halfWeek_real]
  norm_num

/-- Between the moments at which a time difference is moved by a week it grows with the time. -/
theorem hasDerivAt_withinHalfWeek {d : ℝ} (hlate : d ≠ 302400) (hearly : d ≠ -302400) :
    HasDerivAt withinHalfWeek 1 d := by
  rcases lt_or_gt_of_ne hlate with hlt | hgt
  · rcases lt_or_gt_of_ne hearly with hlow | hhigh
    · refine ((hasDerivAt_id' d).add_const 604800).congr_of_eventuallyEq ?_
      filter_upwards [eventually_lt_nhds hlow] with x hx
      rw [withinHalfWeek_real, if_neg (by linarith), if_pos hx]
    · refine (hasDerivAt_id' d).congr_of_eventuallyEq ?_
      filter_upwards [eventually_lt_nhds hlt, eventually_gt_nhds hhigh] with x hx hx'
      rw [withinHalfWeek_real, if_neg (not_lt.mpr hx.le), if_neg (not_lt.mpr hx'.le)]
  · refine ((hasDerivAt_id' d).sub_const 604800).congr_of_eventuallyEq ?_
    filter_upwards [eventually_gt_nhds hgt] with x hx
    rw [withinHalfWeek_real, if_pos hx]

theorem hasDerivAt_withinHalfWeek_sub {t reference : ℝ} (hlate : t - reference ≠ 302400)
    (hearly : t - reference ≠ -302400) :
    HasDerivAt (fun s => withinHalfWeek (s - reference)) 1 t :=
  (hasDerivAt_withinHalfWeek hlate hearly).comp_sub_const t reference

/-- At the moment `t` a satellite moves with its velocity, and its clock with its drift. -/
structure SatelliteState.HasRatesAt (state : ℝ → SatelliteState ℝ) (t : ℝ) : Prop where
  position : Vec3.HasVelocityAt (fun s => (state s).position) (state t).velocity t
  clockError : HasDerivAt (fun s => (state s).clockError) (state t).clockDrift t

namespace BroadcastEphemeris

variable (eph : BroadcastEphemeris ℝ)

theorem distance_real (anomaly : ℝ) :
    eph.distance anomaly = 1 - eph.eccentricity * Real.cos anomaly := by
  rw [distance, one_real]
  rfl

theorem axisRatio_real : eph.axisRatio = √(1 - eph.eccentricity * eph.eccentricity) := by
  rw [axisRatio, one_real]
  rfl

section Orbit

variable {eph} (h0 : 0 ≤ eph.eccentricity) (h1 : eph.eccentricity < 1)
include h0 h1

theorem distance_pos (anomaly : ℝ) : 0 < eph.distance anomaly := by
  rw [distance_real]
  exact Kepler.one_sub_mul_cos_pos h0 h1 anomaly

theorem axisRatio_mul_self :
    eph.axisRatio * eph.axisRatio = 1 - eph.eccentricity * eph.eccentricity := by
  rw [axisRatio_real, Real.mul_self_sqrt]
  have hsquare : eph.eccentricity * eph.eccentricity ≤ 1 * 1 :=
    mul_le_mul h1.le h1.le h0 zero_le_one
  linarith

/-! ### True anomaly -/

/-- The point whose direction is the true anomaly lies on the unit circle. -/
theorem unit_trueAnomaly (anomaly : ℝ) :
    (Real.cos anomaly - eph.eccentricity) / eph.distance anomaly *
        ((Real.cos anomaly - eph.eccentricity) / eph.distance anomaly) +
      eph.axisRatio * Real.sin anomaly / eph.distance anomaly *
        (eph.axisRatio * Real.sin anomaly / eph.distance anomaly) = 1 := by
  have hdistance := (distance_pos h0 h1 anomaly).ne'
  have hsin := Real.sin_sq_add_cos_sq anomaly
  have hratio := axisRatio_mul_self h0 h1
  field_simp
  rw [distance_real]
  linear_combination Real.sin anomaly ^ 2 * hratio + (1 - eph.eccentricity ^ 2) * hsin

theorem cos_trueAnomaly (anomaly : ℝ) :
    Real.cos (eph.trueAnomaly anomaly).value =
      (Real.cos anomaly - eph.eccentricity) / eph.distance anomaly :=
  cos_atan2_of_unit (unit_trueAnomaly h0 h1 anomaly)

theorem sin_trueAnomaly (anomaly : ℝ) :
    Real.sin (eph.trueAnomaly anomaly).value =
      eph.axisRatio * Real.sin anomaly / eph.distance anomaly :=
  sin_atan2_of_unit (unit_trueAnomaly h0 h1 anomaly)

/-! ### Along the orbit

From here on the eccentric anomaly moves with its rate at the moment `t`.
-/

variable {E : ℝ → ℝ} {t : ℝ} (hE : HasDerivAt E (eph.anomalyRate (E t)) t)
include hE

omit h0 h1 in
theorem hasDerivAt_distance :
    HasDerivAt (fun s => eph.distance (E s))
      (eph.eccentricity * Real.sin (E t) * eph.anomalyRate (E t)) t := by
  simp only [distance_real]
  refine ((hE.cos.const_mul eph.eccentricity).const_sub 1).congr_deriv ?_
  ring

-- The arctangent may jump here, but its sine and cosine are quotients that do not.
theorem turns_trueAnomaly : Moving.Turns (fun s => eph.trueAnomaly (E s)) t where
  sin := by
    have hdistance := (distance_pos h0 h1 (E t)).ne'
    simp only [sin_trueAnomaly h0 h1, cos_trueAnomaly h0 h1]
    refine ((hE.sin.const_mul eph.axisRatio).fun_div (hasDerivAt_distance hE)
      hdistance).congr_deriv ?_
    simp only [trueAnomaly]
    field_simp
    rw [distance_real]
    linear_combination -(eph.eccentricity * eph.axisRatio * eph.anomalyRate (E t)) *
      Real.sin_sq_add_cos_sq (E t)
  cos := by
    have hdistance := (distance_pos h0 h1 (E t)).ne'
    simp only [sin_trueAnomaly h0 h1, cos_trueAnomaly h0 h1]
    refine ((hE.cos.sub_const eph.eccentricity).fun_div (hasDerivAt_distance hE)
      hdistance).congr_deriv ?_
    simp only [trueAnomaly]
    field_simp
    have hratio := axisRatio_mul_self h0 h1
    rw [distance_real]
    linear_combination Real.sin (E t) * eph.anomalyRate (E t) * hratio

theorem turns_plainLatitude :
    HasTurnRateAt (fun s => eph.plainLatitude (eph.trueAnomaly (E s)))
      (eph.trueAnomaly (E t)).rate t := by
  have hperigee := hasTurnRateAt_of_hasDerivAt (hasDerivAt_const t (eph.perigee * Real.pi))
  simpa [plainLatitude] using HasTurnRateAt.add (turns_trueAnomaly h0 h1 hE) hperigee

theorem turns_latitude : Moving.Turns (fun s => eph.latitude (eph.trueAnomaly (E s))) t := by
  have hphi := turns_plainLatitude h0 h1 hE
  have hharmonic := hphi.harmonic eph.latitudeSin eph.latitudeCos
  have hturns := hphi.add (hasTurnRateAt_of_hasDerivAt hharmonic)
  simp only [Moving.Turns, latitude, Scalar.sin_real, Scalar.cos_real, two_real, one_real,
    add_assoc]
  convert hturns using 1
  ring

theorem tracks_radius :
    Moving.Tracks (fun s => eph.radius (E s) (eph.trueAnomaly (E s))) t := by
  have hharmonic := (turns_plainLatitude h0 h1 hE).harmonic eph.radiusSin eph.radiusCos
  have hellipse := (hasDerivAt_distance hE).const_mul eph.axis
  simp only [Moving.Tracks, radius, Scalar.sin_real, Scalar.cos_real, two_real, add_assoc]
  refine (hellipse.fun_add hharmonic).congr_deriv ?_
  ring

variable (horbit : HasDerivAt eph.orbitInterval 1 t)
include horbit

theorem tracks_tilt : Moving.Tracks (fun s => eph.tilt (eph.trueAnomaly (E s)) s) t := by
  have hharmonic := (turns_plainLatitude h0 h1 hE).harmonic eph.inclinationSin eph.inclinationCos
  have hdrift := horbit.const_mul (eph.inclinationRate * Real.pi)
  have htilt := (hharmonic.const_add (eph.inclination * Real.pi)).fun_add hdrift
  simp only [← add_assoc] at htilt
  simp only [Moving.Tracks, tilt, Scalar.sin_real, Scalar.cos_real, Scalar.pi_real, two_real]
  refine htilt.congr_deriv ?_
  ring

omit h0 h1 hE in
theorem tracks_longitude : Moving.Tracks (fun s => eph.longitude s) t := by
  have hdrift := horbit.const_mul (eph.nodeRate * Real.pi - earthRate)
  refine ((hdrift.const_add (eph.node * Real.pi)).sub_const
    (earthRate * eph.orbitTime)).congr_deriv ?_
  rw [mul_one]
  rfl

/-- The velocity of a satellite is the derivative of its position. -/
theorem hasVelocityAt_stateOf :
    Vec3.HasVelocityAt (fun s => (eph.stateOf (E s) s).position) (eph.stateOf (E t) t).velocity t :=
  have hradius := tracks_radius h0 h1 hE
  have hlatitude := turns_latitude h0 h1 hE
  Moving.hasVelocityAt_position (hradius.abscissa hlatitude) (hradius.ordinate hlatitude)
    (tracks_tilt h0 h1 hE horbit) (tracks_longitude horbit)

omit h0 h1 horbit in
/-- The clock drift of a satellite is the derivative of its clock error. -/
theorem hasDerivAt_clockError (hclock : HasDerivAt eph.clockInterval 1 t) :
    HasDerivAt (fun s => (eph.stateOf (E s) s).clockError) (eph.stateOf (E t) t).clockDrift t := by
  have hpolynomial := ((hclock.const_mul eph.clockRate).const_add eph.clockBias).fun_add
    ((hclock.fun_mul hclock).const_mul eph.clockAging)
  have hrelativity :=
    hE.sin.const_mul (relativityFactor * eph.eccentricity * eph.sqrtAxis)
  refine ((hpolynomial.fun_add hrelativity).sub_const eph.groupDelay).congr_deriv ?_
  simp only [stateOf, relativity, Scalar.cos_real, two_real]
  ring

/-! ### The exact anomaly -/

omit hE in
/-- The solution of Kepler's equation moves with the rate of the eccentric anomaly. -/
theorem hasDerivAt_exactAnomaly_meanAnomalyAt :
    HasDerivAt (fun s => Kepler.exactAnomaly eph.eccentricity (eph.meanAnomalyAt s))
      (eph.anomalyRate (Kepler.exactAnomaly eph.eccentricity (eph.meanAnomalyAt t))) t := by
  have hmean : HasDerivAt eph.meanAnomalyAt (eph.meanMotion * 1) t :=
    (horbit.const_mul eph.meanMotion).const_add (eph.meanAnomaly * Real.pi)
  refine ((Kepler.hasDerivAt_exactAnomaly h0 h1 _).comp t hmean).congr_deriv ?_
  rw [anomalyRate, distance_real, mul_one, mul_comm, div_eq_mul_inv]

end Orbit

/-- There is one eccentric anomaly that solves Kepler's equation at all times. With it a satellite's
velocity is the derivative of its position and the drift of its clock that of the clock error, at
every time that is not half a week before or after the reference time of the orbit or the one of the
clock. -/
theorem existsUnique_anomaly_hasRatesAt (h0 : 0 ≤ eph.eccentricity) (h1 : eph.eccentricity < 1)
    {t : ℝ} (horbitLate : t - eph.orbitTime ≠ 302400) (horbitEarly : t - eph.orbitTime ≠ -302400)
    (hclockLate : t - eph.clockTime ≠ 302400) (hclockEarly : t - eph.clockTime ≠ -302400) :
    ∃ E : ℝ → ℝ,
      (∀ F : ℝ → ℝ,
        (∀ s, F s - eph.eccentricity * Real.sin (F s) = eph.meanAnomalyAt s) ↔ F = E) ∧
      SatelliteState.HasRatesAt (fun s => eph.stateOf (E s) s) t := by
  have horbit : HasDerivAt eph.orbitInterval 1 t :=
    hasDerivAt_withinHalfWeek_sub horbitLate horbitEarly
  have hE := hasDerivAt_exactAnomaly_meanAnomalyAt h0 h1 horbit
  refine ⟨fun s => Kepler.exactAnomaly eph.eccentricity (eph.meanAnomalyAt s), ?_,
    hasVelocityAt_stateOf h0 h1 hE horbit,
    hasDerivAt_clockError hE (hasDerivAt_withinHalfWeek_sub hclockLate hclockEarly)⟩
  intro F
  rw [funext_iff]
  exact forall_congr' fun s => Kepler.meanOf_eq_iff h0 h1

/-- Ten seconds into a week, on an orbit whose reference times lie two hours before its beginning. -/
theorem existsUnique_anomaly_hasRatesAt_new_week :
    let eph : BroadcastEphemeris ℝ :=
      { weekNumber := 0, groupDelay := -1.1e-8, ageOfData := 0, fitInterval := false
        clockTime := 597600, clockBias := 1e-4, clockRate := 2e-12, clockAging := 1e-18
        orbitTime := 597600, sqrtAxis := 5153.6, motionCorrection := 1.4e-9, meanAnomaly := 0.3
        eccentricity := 0.01, perigee := -0.6, node := 0.25, nodeRate := -2.6e-9
        latitudeSin := 6e-6, latitudeCos := -1.5e-6, radiusSin := -30, radiusCos := 250
        inclinationSin := 1e-7, inclinationCos := -5e-8
        inclination := 0.31, inclinationRate := 1e-10, issueOfData := 0 }
    0 ≤ eph.eccentricity ∧ eph.eccentricity < 1 ∧ (10 - 597600 : ℝ) ≠ 302400 ∧
      (10 - 597600 : ℝ) ≠ -302400 ∧
      ∃ E : ℝ → ℝ, (∀ s, E s - 0.01 * Real.sin (E s) = eph.meanAnomalyAt s) ∧
        SatelliteState.HasRatesAt (fun s => eph.stateOf (E s) s) 10 := by
  intro eph
  have h0 : 0 ≤ eph.eccentricity := by norm_num [eph]
  have h1 : eph.eccentricity < 1 := by norm_num [eph]
  have hlate : (10 - 597600 : ℝ) ≠ 302400 := by norm_num
  have hearly : (10 - 597600 : ℝ) ≠ -302400 := by norm_num
  obtain ⟨E, hE, hrates⟩ := existsUnique_anomaly_hasRatesAt eph h0 h1 hlate hearly hlate hearly
  exact ⟨h0, h1, hlate, hearly, E, (hE E).mpr rfl, hrates⟩

end BroadcastEphemeris

end SatNav
