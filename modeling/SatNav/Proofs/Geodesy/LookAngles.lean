import SatNav.Proofs.Exact.Directions
import SatNav.Proofs.Exact.Rotations
import SatNav.Geodesy

/-!
# From look angles back to the target

The frame of north, east and down is a rotation, whatever the latitude and the longitude
(`northEastDown_mem`). In it `LookAngles.ofLocal` takes the azimuth and the elevation of a
vector, and with its length they give the vector back (`LookAngles.toLocal_ofLocal`), also
below the horizon and straight above. So a target is where its look angles and its range say.
-/

namespace SatNav

open Exact

/-- North, east and down make a rotation. -/
theorem northEastDown_mem (latitude longitude : ℝ) :
    (northEastDown latitude longitude).toMatrix ∈ Matrix.specialOrthogonalGroup (Fin 3) ℝ := by
  have hlatitude := Real.sin_sq_add_cos_sq latitude
  have hlongitude := Real.sin_sq_add_cos_sq longitude
  apply Matrix3.toMatrix_mem_of_rows <;>
    simp only [northEastDown, Vec3.dot_real, Vec3.cross, Scalar.sin_real, Scalar.cos_real,
      zero_real]
  · linear_combination Real.sin latitude ^ 2 * hlongitude + hlatitude
  · linear_combination hlongitude
  · ring
  · congr 1
    · ring
    · ring
    · linear_combination -Real.sin latitude * hlongitude

/-- Distance from the third axis: from the polar axis in the earth-fixed frame, from the plumb line
in the one of north, east and down. -/
noncomputable def Vec3.axisDistance (v : Vec3 ℝ) : ℝ := √(v.x * v.x + v.y * v.y)

theorem Vec3.ne_zero_of_axisDistance {v : Vec3 ℝ} (h : v.axisDistance ≠ 0) :
    v.x ≠ 0 ∨ v.y ≠ 0 := by
  by_contra hzero
  push Not at hzero
  rw [axisDistance, hzero.1, hzero.2, mul_zero, add_zero, Real.sqrt_zero] at h
  exact h rfl

theorem Vec3.length_eq_sqrt_axisDistance (v : Vec3 ℝ) :
    v.length = √(v.axisDistance * v.axisDistance + v.z * v.z) := by
  rw [axisDistance, Real.mul_self_sqrt (add_nonneg (mul_self_nonneg v.x) (mul_self_nonneg v.y))]
  rfl

namespace LookAngles

variable (v : Vec3 ℝ)

theorem elevation_ofLocal :
    (ofLocal v).elevation = Scalar.atan2 (-v.z) v.axisDistance := rfl

theorem azimuth_ofLocal :
    (ofLocal v).azimuth =
      if Scalar.atan2 v.y v.x < 0 then Scalar.atan2 v.y v.x + 2 * Real.pi
      else Scalar.atan2 v.y v.x := by
  rw [ofLocal, zero_real, two_real]
  rfl

/-- Up to whole turns the azimuth is the angle of the horizontal part. -/
theorem azimuth_ofLocal_coe :
    ((ofLocal v).azimuth : Real.Angle) = (Scalar.atan2 v.y v.x : ℝ) := by
  rw [azimuth_ofLocal]
  split
  · rw [Real.Angle.coe_add, Real.Angle.coe_two_pi, add_zero]
  · rfl

theorem azimuth_ofLocal_mem : (ofLocal v).azimuth ∈ Set.Ico 0 (2 * Real.pi) := by
  have hlow : -Real.pi < Scalar.atan2 v.y v.x := Complex.neg_pi_lt_arg _
  have hhigh : Scalar.atan2 v.y v.x ≤ Real.pi := Complex.arg_le_pi _
  have hpi := Real.pi_pos
  rw [azimuth_ofLocal]
  split_ifs with hneg
  · constructor <;> linarith
  · exact ⟨not_lt.mp hneg, by linarith⟩

theorem elevation_ofLocal_mem :
    (ofLocal v).elevation ∈ Set.Icc (-(Real.pi / 2)) (Real.pi / 2) :=
  atan2_mem_of_nonneg (Real.sqrt_nonneg _) _

theorem cos_azimuth_ofLocal :
    Real.cos (ofLocal v).azimuth = Real.cos (Scalar.atan2 v.y v.x) := by
  rw [← Real.Angle.cos_coe, azimuth_ofLocal_coe, Real.Angle.cos_coe]

theorem sin_azimuth_ofLocal :
    Real.sin (ofLocal v).azimuth = Real.sin (Scalar.atan2 v.y v.x) := by
  rw [← Real.Angle.sin_coe, azimuth_ofLocal_coe, Real.Angle.sin_coe]

theorem length_mul_cos_elevation :
    v.length * Real.cos (ofLocal v).elevation = v.axisDistance := by
  rw [v.length_eq_sqrt_axisDistance, elevation_ofLocal, ← neg_mul_neg v.z, sqrt_mul_cos_atan2]

theorem length_mul_sin_elevation : v.length * Real.sin (ofLocal v).elevation = -v.z := by
  rw [v.length_eq_sqrt_axisDistance, elevation_ofLocal, ← neg_mul_neg v.z, sqrt_mul_sin_atan2]

/-- The point at a distance in a direction, by its north, east and down coordinates. -/
noncomputable def toLocal (direction : LookAngles ℝ) (distance : ℝ) : Vec3 ℝ :=
  ⟨distance * Real.cos direction.elevation * Real.cos direction.azimuth,
   distance * Real.cos direction.elevation * Real.sin direction.azimuth,
   -(distance * Real.sin direction.elevation)⟩

/-- The direction of a point and its distance give the point back. -/
theorem toLocal_ofLocal : (ofLocal v).toLocal v.length = v := by
  rw [toLocal, length_mul_cos_elevation, length_mul_sin_elevation, cos_azimuth_ofLocal,
    sin_azimuth_ofLocal, Vec3.axisDistance, sqrt_mul_cos_atan2, sqrt_mul_sin_atan2, neg_neg]

end LookAngles

/-- Position of a target in the frame of north, east and down of a reference. -/
noncomputable def localPosition (target reference : Vec3 ℝ) : Vec3 ℝ :=
  (northEastDown (Geodetic.ofEcef reference).latitude (Geodetic.ofEcef reference).longitude).apply
    (target.sub reference)

theorem lookAngles_eq (target reference : Vec3 ℝ) :
    lookAngles target reference = .ofLocal (localPosition target reference) := rfl

theorem azimuth_mem (target reference : Vec3 ℝ) :
    (lookAngles target reference).azimuth ∈ Set.Ico 0 (2 * Real.pi) :=
  LookAngles.azimuth_ofLocal_mem _

theorem elevation_mem (target reference : Vec3 ℝ) :
    (lookAngles target reference).elevation ∈ Set.Icc (-(Real.pi / 2)) (Real.pi / 2) :=
  LookAngles.elevation_ofLocal_mem _

/-- The local position turned back is where the target is. -/
theorem transpose_apply_localPosition (target reference : Vec3 ℝ) :
    ((northEastDown (Geodetic.ofEcef reference).latitude
      (Geodetic.ofEcef reference).longitude).transpose.apply
        (localPosition target reference)).add reference = target := by
  rw [localPosition, Matrix3.transpose_apply_apply (northEastDown_mem _ _), Vec3.sub_add_self]

theorem length_localPosition (target reference : Vec3 ℝ) :
    (localPosition target reference).length = (target.sub reference).length :=
  Matrix3.length_apply (northEastDown_mem _ _) _

theorem toLocal_lookAngles (target reference : Vec3 ℝ) :
    (lookAngles target reference).toLocal (target.sub reference).length =
      localPosition target reference := by
  rw [lookAngles_eq, ← length_localPosition, LookAngles.toLocal_ofLocal]

/-- Azimuth and elevation are in their ranges, and with the distance they determine the target: the
vector that they describe, turned back from north, east and down at the latitude and longitude of
the reference, leads from there to the target. The frame is a rotation at every latitude and
longitude. -/
theorem target_of_lookAngles (target reference : Vec3 ℝ) :
    let site := Geodetic.ofEcef reference
    let seen := lookAngles target reference
    let d := (target.sub reference).length
    seen.azimuth ∈ Set.Ico 0 (2 * Real.pi) ∧
      seen.elevation ∈ Set.Icc (-(Real.pi / 2)) (Real.pi / 2) ∧
      ((northEastDown site.latitude site.longitude).transpose.apply
        ⟨d * Real.cos seen.elevation * Real.cos seen.azimuth,
         d * Real.cos seen.elevation * Real.sin seen.azimuth,
         -(d * Real.sin seen.elevation)⟩).add reference = target ∧
      (∀ other : Vec3 ℝ, lookAngles other reference = seen →
        (other.sub reference).length = d → other = target) ∧
      ∀ latitude longitude : ℝ,
        (northEastDown latitude longitude).toMatrix ∈ Matrix.specialOrthogonalGroup (Fin 3) ℝ := by
  intro site seen d
  have hback (other : Vec3 ℝ) :
      ((northEastDown site.latitude site.longitude).transpose.apply
        ((lookAngles other reference).toLocal (other.sub reference).length)).add reference =
          other := by
    rw [toLocal_lookAngles]
    exact transpose_apply_localPosition other reference
  refine ⟨azimuth_mem target reference, elevation_mem target reference, hback target, ?_,
    northEastDown_mem⟩
  intro other hseen hdistance
  rw [← hback other, hseen, hdistance]
  exact hback target

end SatNav
