import SatNav.Proofs.Geodesy.LookAngles
import SatNav.Ranging.Delay

/-!
# Symmetries of the ellipsoid

The ellipsoid stays the same when it is turned about the polar axis, `Vec3.turn`, and when it
is mirrored in the plane of the equator, `Vec3.mirror`. Bowring's formula sees a position only
through its distance from the axis and its height over the equator, so latitude and height do
not change with a turn; the longitude turns along. In a mirror the latitude changes its sign,
as long as the formula's own point lies off the axis, where `Vec3.axisDistance` exceeds
`firstEccentricitySq * equatorialRadius`.

The frame of north, east and down turns along with the longitude, and in a mirror only its north
is reversed. So a target that moves with the reference keeps its elevation, and with it the
delay of its signal.
-/

namespace SatNav

open Exact

namespace Vec3

/-- The vector turned about the polar axis. -/
noncomputable def turn (θ : ℝ) (v : Vec3 ℝ) : Vec3 ℝ :=
  ⟨v.x * Real.cos θ - v.y * Real.sin θ, v.x * Real.sin θ + v.y * Real.cos θ, v.z⟩

/-- The vector mirrored in the plane of the equator. -/
def mirror (v : Vec3 ℝ) : Vec3 ℝ := ⟨v.x, v.y, -v.z⟩

variable (θ : ℝ) (v w : Vec3 ℝ)

theorem axisDistance_turn : (v.turn θ).axisDistance = v.axisDistance := by
  have hsquare : (v.turn θ).x * (v.turn θ).x + (v.turn θ).y * (v.turn θ).y =
      v.x * v.x + v.y * v.y := by
    simp only [turn]
    linear_combination (v.x ^ 2 + v.y ^ 2) * Real.sin_sq_add_cos_sq θ
  rw [axisDistance, axisDistance, hsquare]

theorem sub_turn : (v.turn θ).sub (w.turn θ) = (v.sub w).turn θ := by
  simp only [sub, turn]
  congr 1 <;> ring

theorem sub_mirror : v.mirror.sub w.mirror = (v.sub w).mirror := by
  simp only [sub, mirror]
  congr 1
  ring

end Vec3

/-! ### Bowring's formula

The distance `p` from the axis and the height `z` over the equator are all that latitude and height
depend on.
-/

/-- The parametric latitude that Bowring's formula begins with. -/
noncomputable def parametricLatitude (p z : ℝ) : ℝ :=
  Real.arctan (polarRadius * z / (equatorialRadius * p) *
    (1.0 + secondEccentricitySq * (polarRadius / √(p * p + z * z))))

/-- Abscissa of the point whose direction is the latitude. -/
noncomputable def latitudeAbscissa (p z : ℝ) : ℝ :=
  p - firstEccentricitySq * equatorialRadius * Scalar.cube (Real.cos (parametricLatitude p z))

/-- Ordinate of the point whose direction is the latitude. -/
noncomputable def latitudeOrdinate (p z : ℝ) : ℝ :=
  z + secondEccentricitySq * polarRadius * Scalar.cube (Real.sin (parametricLatitude p z))

noncomputable def latitudeAt (p z : ℝ) : ℝ :=
  Scalar.atan2 (latitudeOrdinate p z) (latitudeAbscissa p z)

/-- Height over the ellipsoid of a position at a latitude. -/
noncomputable def heightAt (latitude p z : ℝ) : ℝ :=
  p * Real.cos latitude + z * Real.sin latitude -
    equatorialRadius * equatorialRadius /
      (equatorialRadius / √(1.0 - firstEccentricitySq * Scalar.square (Real.sin latitude)))

theorem ofEcef_eq (v : Vec3 ℝ) :
    Geodetic.ofEcef v =
      ⟨latitudeAt v.axisDistance v.z, Scalar.atan2 v.y v.x,
        heightAt (latitudeAt v.axisDistance v.z) v.axisDistance v.z⟩ := rfl

theorem cube_neg (x : ℝ) : Scalar.cube (-x) = -Scalar.cube x := by
  simp only [Scalar.cube]
  ring

theorem cube_le_one {x : ℝ} (h0 : 0 ≤ x) (h1 : x ≤ 1) : Scalar.cube x ≤ 1 :=
  mul_le_one₀ (mul_le_one₀ h1 h0 h1) h0 h1

theorem firstEccentricitySq_mul_radius_pos :
    0 < (firstEccentricitySq * equatorialRadius : ℝ) := by
  norm_num [firstEccentricitySq, equatorialRadius, polarRadius]

variable {p : ℝ} (z : ℝ)

theorem latitudeAbscissa_pos (h : firstEccentricitySq * equatorialRadius < p) :
    0 < latitudeAbscissa p z := by
  have hcube : Scalar.cube (Real.cos (parametricLatitude p z)) ≤ 1 :=
    cube_le_one (Real.cos_arctan_pos _).le (Real.cos_le_one _)
  have hproduct := mul_le_of_le_one_right firstEccentricitySq_mul_radius_pos.le hcube
  rw [latitudeAbscissa]
  linarith

theorem parametricLatitude_neg (p : ℝ) : parametricLatitude p (-z) = -parametricLatitude p z := by
  rw [parametricLatitude, parametricLatitude, ← Real.arctan_neg, mul_neg, neg_div, neg_mul,
    neg_mul_neg]

theorem latitudeAbscissa_neg (p : ℝ) : latitudeAbscissa p (-z) = latitudeAbscissa p z := by
  rw [latitudeAbscissa, latitudeAbscissa, parametricLatitude_neg, Real.cos_neg]

theorem latitudeOrdinate_neg (p : ℝ) : latitudeOrdinate p (-z) = -latitudeOrdinate p z := by
  rw [latitudeOrdinate, latitudeOrdinate, parametricLatitude_neg, Real.sin_neg, cube_neg]
  ring

theorem latitudeAt_neg (h : firstEccentricitySq * equatorialRadius < p) :
    latitudeAt p (-z) = -latitudeAt p z := by
  rw [latitudeAt, latitudeAt, latitudeAbscissa_neg, latitudeOrdinate_neg,
    atan2_neg_left (latitudeAbscissa_pos z h)]

theorem heightAt_neg (latitude p : ℝ) : heightAt (-latitude) p (-z) = heightAt latitude p z := by
  simp only [heightAt, Real.cos_neg, Real.sin_neg, neg_mul_neg, Scalar.square]

/-! ### Sites -/

section Sites

variable {v : Vec3 ℝ} (θ : ℝ)

theorem latitude_turn (v : Vec3 ℝ) :
    (Geodetic.ofEcef (v.turn θ)).latitude = (Geodetic.ofEcef v).latitude := by
  rw [ofEcef_eq, ofEcef_eq, Vec3.axisDistance_turn]
  rfl

theorem height_turn (v : Vec3 ℝ) :
    (Geodetic.ofEcef (v.turn θ)).height = (Geodetic.ofEcef v).height := by
  rw [ofEcef_eq, ofEcef_eq, Vec3.axisDistance_turn]
  rfl

theorem longitude_turn (h : 0 < v.axisDistance) :
    ((Geodetic.ofEcef (v.turn θ)).longitude : Real.Angle) =
      (Geodetic.ofEcef v).longitude + θ :=
  atan2_turn_coe (Vec3.ne_zero_of_axisDistance h.ne') θ

theorem latitude_mirror (h : firstEccentricitySq * equatorialRadius < v.axisDistance) :
    (Geodetic.ofEcef v.mirror).latitude = -(Geodetic.ofEcef v).latitude :=
  latitudeAt_neg v.z h

theorem longitude_mirror (v : Vec3 ℝ) :
    (Geodetic.ofEcef v.mirror).longitude = (Geodetic.ofEcef v).longitude := rfl

theorem height_mirror (h : firstEccentricitySq * equatorialRadius < v.axisDistance) :
    (Geodetic.ofEcef v.mirror).height = (Geodetic.ofEcef v).height := by
  have hlatitude : latitudeAt v.axisDistance (-v.z) = -latitudeAt v.axisDistance v.z :=
    latitudeAt_neg v.z h
  calc heightAt (latitudeAt v.axisDistance (-v.z)) v.axisDistance (-v.z)
      = heightAt (-latitudeAt v.axisDistance v.z) v.axisDistance (-v.z) := by rw [hlatitude]
    _ = heightAt (latitudeAt v.axisDistance v.z) v.axisDistance v.z := heightAt_neg v.z _ _

end Sites

/-! ### Frames -/

section Frames

variable (latitude longitude θ : ℝ) (v : Vec3 ℝ)

theorem northEastDown_congr {a b : ℝ} (h : (a : Real.Angle) = b) :
    northEastDown latitude a = northEastDown latitude b := by
  have hsin : Real.sin a = Real.sin b := by
    rw [← Real.Angle.sin_coe, h, Real.Angle.sin_coe]
  have hcos : Real.cos a = Real.cos b := by
    rw [← Real.Angle.cos_coe, h, Real.Angle.cos_coe]
  simp only [northEastDown, Scalar.sin_real, Scalar.cos_real, hsin, hcos]

/-- A vector that turns with the frame keeps its place in it. -/
theorem northEastDown_apply_turn :
    (northEastDown latitude (longitude + θ)).apply (v.turn θ) =
      (northEastDown latitude longitude).apply v := by
  have hθ := Real.sin_sq_add_cos_sq θ
  simp only [northEastDown, Matrix3.apply, Vec3.dot_real, Vec3.turn, Scalar.sin_real,
    Scalar.cos_real, Real.sin_add, Real.cos_add, zero_real]
  congr 1
  · linear_combination -Real.sin latitude *
      (Real.cos longitude * v.x + Real.sin longitude * v.y) * hθ
  · linear_combination (-Real.sin longitude * v.x + Real.cos longitude * v.y) * hθ
  · linear_combination -Real.cos latitude *
      (Real.cos longitude * v.x + Real.sin longitude * v.y) * hθ

/-- A mirror reverses north. -/
theorem northEastDown_apply_mirror :
    (northEastDown (-latitude) longitude).apply v.mirror =
      let w := (northEastDown latitude longitude).apply v
      ⟨-w.x, w.y, w.z⟩ := by
  simp only [northEastDown, Matrix3.apply, Vec3.dot_real, Vec3.mirror, Scalar.sin_real,
    Scalar.cos_real, Real.sin_neg, Real.cos_neg, zero_real]
  congr 1 <;> ring

end Frames

/-! ### Look angles and delays -/

section Look

variable {reference : Vec3 ℝ} (θ : ℝ) (target : Vec3 ℝ)

theorem localPosition_turn (h : 0 < reference.axisDistance) :
    localPosition (target.turn θ) (reference.turn θ) = localPosition target reference := by
  rw [localPosition, localPosition, latitude_turn, Vec3.sub_turn,
    northEastDown_congr _ (longitude_turn θ h), northEastDown_apply_turn]

theorem lookAngles_turn (h : 0 < reference.axisDistance) :
    lookAngles (target.turn θ) (reference.turn θ) = lookAngles target reference := by
  rw [lookAngles_eq, lookAngles_eq, localPosition_turn θ target h]

variable (h : firstEccentricitySq * equatorialRadius < reference.axisDistance)
include h

theorem localPosition_mirror :
    localPosition target.mirror reference.mirror =
      let w := localPosition target reference
      ⟨-w.x, w.y, w.z⟩ := by
  rw [localPosition, localPosition, latitude_mirror h, longitude_mirror, Vec3.sub_mirror,
    northEastDown_apply_mirror]

theorem elevation_mirror :
    (lookAngles target.mirror reference.mirror).elevation =
      (lookAngles target reference).elevation := by
  rw [lookAngles_eq, lookAngles_eq, localPosition_mirror target h,
    LookAngles.elevation_ofLocal, LookAngles.elevation_ofLocal, Vec3.axisDistance,
    Vec3.axisDistance, neg_mul_neg]

theorem azimuth_mirror
    (hhorizontal : (localPosition target reference).axisDistance ≠ 0) :
    ((lookAngles target.mirror reference.mirror).azimuth : Real.Angle) =
      Real.pi - (lookAngles target reference).azimuth := by
  rw [lookAngles_eq, lookAngles_eq, localPosition_mirror target h,
    LookAngles.azimuth_ofLocal_coe, LookAngles.azimuth_ofLocal_coe]
  exact atan2_neg_right_coe (Vec3.ne_zero_of_axisDistance hhorizontal)

end Look

/-- The measurement when its satellite is elsewhere. -/
def RangeMeasurement.moved (f : Vec3 ℝ → Vec3 ℝ) (m : RangeMeasurement ℝ) : RangeMeasurement ℝ :=
  { m with position := f m.position }

/-- A motion that keeps elevations keeps the corrections by them. -/
theorem correctDelays_moved {f : Vec3 ℝ → Vec3 ℝ} {reference : Vec3 ℝ}
    (h : ∀ target, (lookAngles (f target) (f reference)).elevation =
      (lookAngles target reference).elevation)
    (model : DelayModel ℝ) (measurements : List (RangeMeasurement ℝ)) :
    correctDelays model (f reference) (measurements.map (·.moved f)) =
      (correctDelays model reference measurements).map (·.moved f) := by
  rw [correctDelays, correctDelays, List.map_map, List.map_map]
  refine List.map_congr_left fun m _ => ?_
  simp only [Function.comp_apply, RangeMeasurement.moved, RangeMeasurement.correct,
    DelayCorrection.ofModel, h]

/-! ### A reference on the equator -/

theorem firstEccentricitySq_mul_radius_lt :
    (firstEccentricitySq * equatorialRadius : ℝ) < 6378137 := by
  norm_num [firstEccentricitySq, equatorialRadius, polarRadius]

theorem latitudeAt_zero {p : ℝ} (h : firstEccentricitySq * equatorialRadius < p) :
    latitudeAt p 0 = 0 := by
  have hneg := latitudeAt_neg 0 h
  rw [neg_zero] at hneg
  exact self_eq_neg.mp hneg

theorem axisDistance_equator {r : ℝ} (hr : 0 ≤ r) : (⟨r, 0, 0⟩ : Vec3 ℝ).axisDistance = r := by
  rw [Vec3.axisDistance, mul_zero, add_zero, Real.sqrt_mul_self hr]

/-- Where the prime meridian meets the equator, north is along the third axis, east along the second
one, and down against the first one. -/
theorem localPosition_equator {r : ℝ} (h : firstEccentricitySq * equatorialRadius < r)
    (target : Vec3 ℝ) :
    localPosition target ⟨r, 0, 0⟩ = ⟨target.z, target.y, r - target.x⟩ := by
  have hr : 0 ≤ r := (firstEccentricitySq_mul_radius_pos.trans h).le
  have hlatitude : (Geodetic.ofEcef (⟨r, 0, 0⟩ : Vec3 ℝ)).latitude = 0 := by
    rw [ofEcef_eq, axisDistance_equator hr]
    exact latitudeAt_zero h
  have hlongitude : (Geodetic.ofEcef (⟨r, 0, 0⟩ : Vec3 ℝ)).longitude = 0 :=
    Complex.arg_ofReal_of_nonneg hr
  rw [localPosition, hlatitude, hlongitude]
  simp only [northEastDown, Matrix3.apply, Vec3.dot_real, Vec3.sub, Scalar.sin_real,
    Scalar.cos_real, Real.sin_zero, Real.cos_zero, zero_real]
  congr 1 <;> ring

/-- The look angles and the delays do not notice when reference and target are turned together about
the polar axis or mirrored together in the plane of the equator, except that in the mirror north
becomes south. The reference itself keeps latitude and height in a turn, and its longitude turns
along; in the mirror it keeps longitude and height, and its latitude is the negative. -/
theorem geometry_equivariant {reference : Vec3 ℝ}
    (h : firstEccentricitySq * equatorialRadius < reference.axisDistance) :
    let site := Geodetic.ofEcef reference
    (∀ θ : ℝ,
      let turned := Geodetic.ofEcef (reference.turn θ)
      turned.latitude = site.latitude ∧ turned.height = site.height ∧
        (turned.longitude : Real.Angle) = site.longitude + θ ∧
        ∀ target : Vec3 ℝ,
          lookAngles (target.turn θ) (reference.turn θ) = lookAngles target reference) ∧
    (let mirrored := Geodetic.ofEcef reference.mirror
     mirrored.latitude = -site.latitude ∧ mirrored.longitude = site.longitude ∧
      mirrored.height = site.height) ∧
    (∀ target : Vec3 ℝ,
      let seen := lookAngles target reference
      let image := lookAngles target.mirror reference.mirror
      image.elevation = seen.elevation ∧
        ((localPosition target reference).axisDistance ≠ 0 →
          (image.azimuth : Real.Angle) = Real.pi - seen.azimuth)) ∧
    ∀ (model : DelayModel ℝ) (measurements : List (RangeMeasurement ℝ)),
      (∀ θ : ℝ,
        correctDelays model (reference.turn θ) (measurements.map (·.moved (Vec3.turn θ))) =
          (correctDelays model reference measurements).map (·.moved (Vec3.turn θ))) ∧
      correctDelays model reference.mirror (measurements.map (·.moved Vec3.mirror)) =
        (correctDelays model reference measurements).map (·.moved Vec3.mirror) := by
  intro site
  have hpos : 0 < reference.axisDistance := firstEccentricitySq_mul_radius_pos.trans h
  refine ⟨fun θ => ⟨latitude_turn θ reference, height_turn θ reference, longitude_turn θ hpos,
      fun target => lookAngles_turn θ target hpos⟩,
    ⟨latitude_mirror h, longitude_mirror reference, height_mirror h⟩,
    fun target => ⟨elevation_mirror target h, azimuth_mirror target h⟩, ?_⟩
  intro model measurements
  constructor
  · intro θ
    have hturn (target : Vec3 ℝ) := congrArg LookAngles.elevation (lookAngles_turn θ target hpos)
    exact correctDelays_moved hturn model measurements
  · exact correctDelays_moved (fun target => elevation_mirror target h) model measurements

/-- A target in the northeast of a reference on the equator, and its image in the southeast. -/
theorem geometry_equivariant_northeast :
    let reference : Vec3 ℝ := ⟨6378137, 0, 0⟩
    let target : Vec3 ℝ := ⟨6378137, 100000, 100000⟩
    firstEccentricitySq * equatorialRadius < reference.axisDistance ∧
      (localPosition target reference).axisDistance ≠ 0 ∧
      ((lookAngles target.mirror reference.mirror).azimuth : Real.Angle) =
        Real.pi - (lookAngles target reference).azimuth := by
  intro reference target
  have h : firstEccentricitySq * equatorialRadius < reference.axisDistance := by
    rw [axisDistance_equator (by norm_num)]
    exact firstEccentricitySq_mul_radius_lt
  have hhorizontal : (localPosition target reference).axisDistance ≠ 0 := by
    rw [localPosition_equator firstEccentricitySq_mul_radius_lt, Vec3.axisDistance]
    exact (Real.sqrt_pos.mpr (by norm_num [target])).ne'
  obtain ⟨-, -, hmirror, -⟩ := geometry_equivariant h
  exact ⟨h, hhorizontal, (hmirror target).2 hhorizontal⟩

end SatNav
