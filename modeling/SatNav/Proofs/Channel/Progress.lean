import SatNav.Proofs.Binary64.Monotone
import SatNav.Proofs.Channel.Admission

/-!
# A block takes samples

A double below the code period is at least `2 ^ -43` below it, and no finite code step is
so long that this distance, divided by it, would be rounded to zero. Whatever motion
`checkMotion` accepts therefore leads to a block of at least one sample.
-/

namespace SatNav

namespace Binary64

theorem Representable.le_sub_of_lt {r : ℝ} (h : Representable r) (hr : r < 1023) :
    r ≤ 1023 - 2 ^ (-43 : ℤ) := by
  rcases le_or_gt r 1022 with hle | hgt
  · have : (2 : ℝ) ^ (-43 : ℤ) ≤ 1 := zpow_le_one_of_nonpos₀ (by norm_num) (by norm_num)
    linarith
  · have hlarge : (2 : ℝ) ^ (-43 + 52 : ℤ) ≤ |r| := by
      rw [abs_of_pos (by linarith)]
      norm_num
      linarith
    obtain ⟨n, hn⟩ := h.exists_multiple hlarge
    have hunit : (0 : ℝ) < 2 ^ (-43 : ℤ) := by positivity
    have hperiod : (1023 : ℝ) = ((1023 * 2 ^ 43 : ℤ) : ℝ) * 2 ^ (-43 : ℤ) := by
      norm_num [zpow_neg]
    linarith [le_sub_of_multiples hunit hn hperiod hr]

/-- The least distance to the code period, divided by a double, is not rounded to zero. -/
theorem value_div_pos {x y : Float} {a : EReal} {b : ℝ} (hx : value x = some a)
    (ha : ((2 ^ (-43 : ℤ) : ℝ) : EReal) ≤ a) (hy : value y = some (b : EReal)) (hb : 0 < b) :
    ∃ c, value (x / y) = some c ∧ 0 < c := by
  induction a with
  | bot => exact absurd ha (by simp)
  | top => exact ⟨⊤, value_top_div hx hy hb, by simp⟩
  | coe r =>
    refine ⟨_, value_div_coe hx hy hb.ne', ?_⟩
    have hlimit : b ≤ 2 ^ (1024 : ℤ) := (abs_lt.mp (representable_of_value hy).1).2.le
    have hquotient : (2 : ℝ) ^ (-1067 : ℤ) ≤ r / b := by
      rw [le_div_iff₀ hb]
      calc (2 : ℝ) ^ (-1067 : ℤ) * b ≤ 2 ^ (-1067 : ℤ) * 2 ^ (1024 : ℤ) := by gcongr
        _ = 2 ^ (-43 : ℤ) := by
          rw [← zpow_add₀ (by norm_num)]
          rfl
        _ ≤ r := by exact_mod_cast ha
    calc (0 : EReal) < ((2 ^ (-1067 : ℤ) : ℝ) : EReal) :=
          EReal.coe_pos.mpr (zpow_pos (by norm_num) _)
      _ = round ((2 ^ (-1067 : ℤ) : ℝ) : EReal) :=
          (representable_zpow (by norm_num) (by norm_num)).round.symm
      _ ≤ round ((r / b : ℝ) : EReal) := round_mono (by exact_mod_cast hquotient)

end Binary64

open Binary64

theorem value_codePeriod : value (codePeriod : Float) = some ((1023 : ℝ) : EReal) := by
  exact_mod_cast value_literal (n := 1023) (by norm_num)

theorem step_accepted_iff (x : Float) : (Scalar.isFinite x = true ∧ ¬ x ≤ 0.0) ↔
    ∃ s : ℝ, value x = some (s : EReal) ∧ 0 < s := by
  constructor
  · rintro ⟨hfinite, hpos⟩
    obtain ⟨s, hs⟩ := (isFinite_iff x).mp hfinite
    rw [le_iff_of_value hs value_decimal_zero, EReal.coe_le_coe_iff, not_le] at hpos
    exact ⟨s, hs, hpos⟩
  · rintro ⟨s, hs, hpos⟩
    refine ⟨(isFinite_iff x).mpr ⟨s, hs⟩, ?_⟩
    rwa [le_iff_of_value hs value_decimal_zero, EReal.coe_le_coe_iff, not_le]

theorem phase_accepted_iff (x : Float) : (Scalar.isFinite x = true ∧ ¬ codePeriod ≤ x) ↔
    ∃ p : ℝ, value x = some (p : EReal) ∧ p < 1023 := by
  constructor
  · rintro ⟨hfinite, hlt⟩
    obtain ⟨p, hp⟩ := (isFinite_iff x).mp hfinite
    rw [le_iff_of_value value_codePeriod hp, EReal.coe_le_coe_iff, not_le] at hlt
    exact ⟨p, hp, hlt⟩
  · rintro ⟨p, hp, hlt⟩
    refine ⟨(isFinite_iff x).mpr ⟨p, hp⟩, ?_⟩
    rwa [le_iff_of_value value_codePeriod hp, EReal.coe_le_coe_iff, not_le]

/-- The steps and phases that are accepted, by the numbers that they stand for. -/
theorem checkMotion_eq_ok_iff_value (steps : Steps Float) (phases : Phases Float) :
    checkMotion steps phases = .ok () ↔
      (∃ s : ℝ, value steps.code = some (s : EReal) ∧ 0 < s) ∧
        (∃ p : ℝ, value phases.code = some (p : EReal) ∧ p < 1023) ∧
          (∃ c : ℝ, value phases.carrier = some (c : EReal)) ∧
            ∃ t : ℝ, value steps.carrier = some (t : EReal) := by
  rw [checkMotion_eq_ok_iff, ← step_accepted_iff, ← phase_accepted_iff]
  exact and_congr_right' (and_congr_right'
    (and_congr (isFinite_iff phases.carrier) (isFinite_iff steps.carrier)))

/-- A carrier phase that is no number is refused if nothing else is. -/
theorem checkMotion_eq_error_carrier {steps : Steps Float} {phases : Phases Float} {p s : ℝ}
    (hs : value steps.code = some (s : EReal)) (hpos : 0 < s)
    (hp : value phases.code = some (p : EReal)) (hlt : p < 1023)
    (hcarrier : value phases.carrier = none) :
    checkMotion steps phases = .error (.badParameter .carrier) := by
  obtain ⟨hsfinite, hsnot⟩ := (step_accepted_iff steps.code).mpr ⟨s, hs, hpos⟩
  obtain ⟨hpfinite, hpnot⟩ := (phase_accepted_iff phases.code).mpr ⟨p, hp, hlt⟩
  have hinfinite : ¬ Scalar.isFinite phases.carrier = true := by
    intro hfinite
    obtain ⟨r, hr⟩ := (isFinite_iff phases.carrier).mp hfinite
    rw [hcarrier] at hr
    cases hr
  rw [checkMotion, if_neg (not_or.mpr ⟨not_not.mpr hsfinite, hsnot⟩),
    if_neg (not_or.mpr ⟨not_not.mpr hpfinite, hpnot⟩), if_pos (.inl hinfinite)]

/-- No block of doubles is empty. -/
theorem neverEmpty (steps : Steps Float) : steps.NeverEmpty := by
  intro phases h
  obtain ⟨⟨s, hs, hs'⟩, ⟨p, hp, hp'⟩, -⟩ := (checkMotion_eq_ok_iff_value steps phases).mp h
  have hdistance : value ((codePeriod : Float) - phases.code) =
      some (round ((1023 - p : ℝ) : EReal)) :=
    value_sub value_codePeriod hp (by simp) (by simp)
  have hgap : ((2 ^ (-43 : ℤ) : ℝ) : EReal) ≤ round ((1023 - p : ℝ) : EReal) := by
    have hreal : (2 : ℝ) ^ (-43 : ℤ) ≤ 1023 - p := by
      linarith [(representable_of_value hp).le_sub_of_lt hp']
    rw [← (representable_zpow (e := -43) (by norm_num) (by norm_num)).round]
    exact round_mono (by exact_mod_cast hreal)
  obtain ⟨c, hc, hcpos⟩ := value_div_pos hdistance hgap hs hs'
  exact toCount_ceil_pos hc hcpos

end SatNav
