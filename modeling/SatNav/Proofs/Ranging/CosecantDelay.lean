import SatNav.Proofs.Geodesy.Symmetry

/-!
# Delays by the cosecant mapping

`cosecantDelay` divides by the sine of the elevation and a small constant. Seen from a
reference a satellite may have any elevation between the two verticals, and at
`poleElevation`, two thirds of a degree below the horizon, this sum is zero. Above it the
correction is a delay that falls with the elevation, and from the horizon on it is at most
`2.47 / 0.0121` metres. Below it the correction is an advance.
-/

namespace SatNav

open Exact

/-- The elevation at which the cosecant mapping divides by zero. -/
noncomputable def poleElevation : ℝ := -Real.arcsin 0.0121

section Mapping

variable {elevation : ℝ}

theorem cosecantDelay_real : cosecantDelay elevation = 2.47 / (Real.sin elevation + 0.0121) := rfl

theorem cosecantDelay_pos_iff_denominator :
    0 < cosecantDelay elevation ↔ 0 < Real.sin elevation + 0.0121 :=
  div_pos_iff_of_pos_left (by norm_num)

theorem cosecantDelay_le_iff (h : 0 < Real.sin elevation + 0.0121) :
    cosecantDelay elevation ≤ 2.47 / 0.0121 ↔ 0 ≤ Real.sin elevation := by
  rw [cosecantDelay_real, div_le_div_iff_of_pos_left (by norm_num) h (by norm_num)]
  exact le_add_iff_nonneg_left 0.0121

end Mapping

theorem poleElevation_eq : poleElevation = Real.arcsin (-0.0121) := (Real.arcsin_neg _).symm

theorem sin_poleElevation : Real.sin poleElevation = -0.0121 := by
  rw [poleElevation_eq, Real.sin_arcsin (by norm_num) (by norm_num)]

theorem poleElevation_mem : poleElevation ∈ Set.Icc (-(Real.pi / 2)) (Real.pi / 2) := by
  rw [poleElevation_eq]
  exact Real.arcsin_mem_Icc _

/-! ### Between the two verticals -/

section Elevations

variable {a b : ℝ} (ha : a ∈ Set.Icc (-(Real.pi / 2)) (Real.pi / 2))
  (hb : b ∈ Set.Icc (-(Real.pi / 2)) (Real.pi / 2))
include ha

theorem cosecantDenominator_pos_iff : 0 < Real.sin a + 0.0121 ↔ poleElevation < a := by
  rw [← Real.strictMonoOn_sin.lt_iff_lt poleElevation_mem ha, sin_poleElevation]
  constructor <;> intro h <;> linarith

theorem cosecantDenominator_neg_iff : Real.sin a + 0.0121 < 0 ↔ a < poleElevation := by
  rw [← Real.strictMonoOn_sin.lt_iff_lt ha poleElevation_mem, sin_poleElevation]
  constructor <;> intro h <;> linarith

theorem cosecantDenominator_eq_zero_iff : Real.sin a + 0.0121 = 0 ↔ a = poleElevation := by
  rw [← Real.injOn_sin.eq_iff ha poleElevation_mem, sin_poleElevation]
  constructor <;> intro h <;> linarith

theorem cosecantDelay_pos_iff : 0 < cosecantDelay a ↔ poleElevation < a := by
  rw [cosecantDelay_pos_iff_denominator, cosecantDenominator_pos_iff ha]

/-- The horizon is above the pole, and there the delay has its bound. -/
theorem cosecantDelay_mem_iff : cosecantDelay a ∈ Set.Ioc 0 (2.47 / 0.0121) ↔ 0 ≤ a := by
  have hzero : (0 : ℝ) ∈ Set.Icc (-(Real.pi / 2)) (Real.pi / 2) := by
    constructor <;> linarith [Real.pi_pos]
  have hhorizon : 0 ≤ a ↔ 0 ≤ Real.sin a := by
    rw [← Real.strictMonoOn_sin.le_iff_le hzero ha, Real.sin_zero]
  rw [hhorizon, Set.mem_Ioc, cosecantDelay_pos_iff_denominator]
  constructor
  · rintro ⟨hpos, hle⟩
    exact (cosecantDelay_le_iff hpos).mp hle
  · intro hsin
    have hpos : 0 < Real.sin a + 0.0121 := by linarith
    exact ⟨hpos, (cosecantDelay_le_iff hpos).mpr hsin⟩

include hb

/-- On one side of the pole the correction falls with the elevation. -/
theorem cosecantDelay_anti (hab : a ≤ b) (hside : poleElevation < a ∨ b < poleElevation) :
    cosecantDelay b ≤ cosecantDelay a := by
  have hsin : Real.sin a ≤ Real.sin b := Real.strictMonoOn_sin.monotoneOn ha hb hab
  have hsame : 0 < (Real.sin a + 0.0121) * (Real.sin b + 0.0121) := by
    rcases hside with habove | hbelow
    · exact mul_pos ((cosecantDenominator_pos_iff ha).mpr habove)
        ((cosecantDenominator_pos_iff hb).mpr (habove.trans_le hab))
    · exact mul_pos_of_neg_of_neg ((cosecantDenominator_neg_iff ha).mpr (hab.trans_lt hbelow))
        ((cosecantDenominator_neg_iff hb).mpr hbelow)
  have hdifference : cosecantDelay a - cosecantDelay b =
      2.47 * (Real.sin b - Real.sin a) / ((Real.sin a + 0.0121) * (Real.sin b + 0.0121)) := by
    have hne := left_ne_zero_of_mul hsame.ne'
    have hne' := right_ne_zero_of_mul hsame.ne'
    rw [cosecantDelay_real, cosecantDelay_real, div_sub_div _ _ hne hne']
    congr 1
    ring
  have hnonneg : 0 ≤ cosecantDelay a - cosecantDelay b := by
    rw [hdifference]
    exact div_nonneg (mul_nonneg (by norm_num) (sub_nonneg.mpr hsin)) hsame.le
  exact sub_nonneg.mp hnonneg

end Elevations

/-- The correction of a range is the cosecant mapping of the elevation, which is between the two
verticals. It is defined everywhere but at the pole, positive exactly above it, and of the size of a
delay exactly from the horizon on. Of two satellites on one side of the pole the higher one never
has the larger correction. -/
theorem cosecant_correction_laws (reference : Vec3 ℝ) :
    let elevation (satellite : Vec3 ℝ) := (lookAngles satellite reference).elevation
    let correction (satellite : Vec3 ℝ) :=
      2.47 / (Real.sin (elevation satellite) + 0.0121)
    (∀ measurements : List (RangeMeasurement ℝ),
      correctDelays cosecantDelay reference measurements =
        measurements.map fun m => { m with range := m.range - correction m.position }) ∧
    (∀ satellite : Vec3 ℝ,
      elevation satellite ∈ Set.Icc (-(Real.pi / 2)) (Real.pi / 2) ∧
        (Real.sin (elevation satellite) + 0.0121 ≠ 0 ↔ elevation satellite ≠ poleElevation) ∧
        (0 < correction satellite ↔ poleElevation < elevation satellite) ∧
        (correction satellite ∈ Set.Ioc 0 (2.47 / 0.0121) ↔ 0 ≤ elevation satellite)) ∧
    ∀ low high : Vec3 ℝ, elevation low ≤ elevation high →
      (poleElevation < elevation low ∨ elevation high < poleElevation) →
      correction high ≤ correction low := by
  intro elevation correction
  refine ⟨fun measurements => rfl, ?_, ?_⟩
  · intro satellite
    have hrange := elevation_mem satellite reference
    exact ⟨hrange, not_congr (cosecantDenominator_eq_zero_iff hrange), cosecantDelay_pos_iff hrange,
      cosecantDelay_mem_iff hrange⟩
  · intro low high
    exact cosecantDelay_anti (elevation_mem low reference) (elevation_mem high reference)

/-! ### Seen from the equator -/

/-- The elevation of a satellite `east` and `down` of a reference on the equator. -/
theorem sin_elevation_equator {east down distance : ℝ} (hdistance : 0 < distance)
    (hsquare : east * east + down * down = distance * distance) :
    Real.sin (lookAngles ⟨6378137 - down, east, 0⟩ ⟨6378137, 0, 0⟩).elevation =
      -down / distance := by
  have hposition : localPosition ⟨6378137 - down, east, 0⟩ ⟨6378137, 0, 0⟩ = ⟨0, east, down⟩ := by
    rw [localPosition_equator firstEccentricitySq_mul_radius_lt, sub_sub_cancel]
  have hlength : (⟨0, east, down⟩ : Vec3 ℝ).length = distance := by
    refine Vec3.length_of_dot_self hdistance.le ?_
    rw [Vec3.dot_real, mul_zero, zero_add, hsquare]
  rw [lookAngles_eq, hposition, eq_div_iff hdistance.ne', mul_comm, ← hlength,
    LookAngles.length_mul_sin_elevation]

/-- A satellite on the horizon and one in the zenith. -/
theorem cosecant_correction_laws_zenith :
    let reference : Vec3 ℝ := ⟨6378137, 0, 0⟩
    let low : Vec3 ℝ := ⟨6378137 - 0, 26000000, 0⟩
    let high : Vec3 ℝ := ⟨6378137 - -20000000, 0, 0⟩
    (lookAngles low reference).elevation ≤ (lookAngles high reference).elevation ∧
      poleElevation < (lookAngles low reference).elevation ∧
      2.47 / (Real.sin (lookAngles high reference).elevation + 0.0121) ≤
        2.47 / (Real.sin (lookAngles low reference).elevation + 0.0121) := by
  intro reference low high
  obtain ⟨-, -, hanti⟩ := cosecant_correction_laws reference
  have hlow : Real.sin (lookAngles low reference).elevation = -0 / 26000000 :=
    sin_elevation_equator (by norm_num) (by norm_num)
  have hhigh : Real.sin (lookAngles high reference).elevation = - -20000000 / 20000000 :=
    sin_elevation_equator (by norm_num) (by norm_num)
  have hle : (lookAngles low reference).elevation ≤ (lookAngles high reference).elevation := by
    rw [← Real.strictMonoOn_sin.le_iff_le (elevation_mem low reference)
      (elevation_mem high reference), hlow, hhigh]
    norm_num
  have habove : poleElevation < (lookAngles low reference).elevation := by
    rw [← cosecantDenominator_pos_iff (elevation_mem low reference), hlow]
    norm_num
  exact ⟨hle, habove, hanti low high hle (Or.inl habove)⟩

/-- Below the horizon the correction is not always that of a delay. Seen from the equator, a
satellite far below has its range raised, one half a degree below has it lowered by more than any
delay from the horizon on, although it is the higher one of the two, and for one on the pole the
correction is not defined. -/
theorem corrections_below_horizon :
    let reference : Vec3 ℝ := ⟨6378137, 0, 0⟩
    let measured (satellite : Vec3 ℝ) : RangeMeasurement ℝ :=
      ⟨0, 22000000, 0, satellite, ⟨0, 0, 0⟩⟩
    let elevation (satellite : Vec3 ℝ) := (lookAngles satellite reference).elevation
    let deep : Vec3 ℝ := ⟨6378137 - 18000000, 24000000, 0⟩
    let setting : Vec3 ℝ := ⟨6378137 - 240000, 23999400, 0⟩
    let pole : Vec3 ℝ := ⟨6378137 - 0.0121 * 24000000, √(1 - 0.0121 ^ 2) * 24000000, 0⟩
    0 < reference.axisDistance ∧
      (∃ a b : RangeMeasurement ℝ,
        correctDelays cosecantDelay reference [measured deep, measured setting] = [a, b] ∧
          22000000 < a.range ∧ b.range < 22000000 - 2.47 / 0.0121) ∧
      elevation deep < elevation setting ∧ Real.sin (elevation pole) + 0.0121 = 0 := by
  intro reference measured elevation deep setting pole
  have hdeep : Real.sin (elevation deep) = -18000000 / 30000000 :=
    sin_elevation_equator (by norm_num) (by norm_num)
  have hsetting : Real.sin (elevation setting) = -240000 / 24000600 :=
    sin_elevation_equator (by norm_num) (by norm_num)
  have hroot := Real.mul_self_sqrt (by norm_num : (0 : ℝ) ≤ 1 - 0.0121 ^ 2)
  have hpole : Real.sin (elevation pole) = -(0.0121 * 24000000) / 24000000 :=
    sin_elevation_equator (by norm_num) (by linear_combination 24000000 ^ 2 * hroot)
  have hlower : elevation deep < elevation setting := by
    rw [← Real.strictMonoOn_sin.lt_iff_lt (elevation_mem deep reference)
      (elevation_mem setting reference), hdeep, hsetting]
    norm_num
  have hraised : (22000000 : ℝ) < 22000000 - cosecantDelay (elevation deep) := by
    rw [cosecantDelay_real, hdeep]
    norm_num
  have hlowered :
      22000000 - cosecantDelay (elevation setting) < 22000000 - 2.47 / 0.0121 := by
    rw [cosecantDelay_real, hsetting]
    norm_num
  refine ⟨?_, ⟨_, _, rfl, hraised, hlowered⟩, hlower, ?_⟩
  · rw [axisDistance_equator] <;> norm_num
  · rw [hpole]
    norm_num

end SatNav
