import SatNav.Proofs.Binary64.Differences

/-!
# Logarithms and decibels of doubles

The library fixes the logarithm at the ends of its domain and leaves the rest to the mathematical
library of the system. So the latter is a parameter here, `log10With f`, of which it is only asked
that the logarithm of a finite positive double is a number of the size that logarithms of doubles
have. An undefined logarithm stays undefined in decibels, an infinite one infinite, and every other
one finite or minus infinity.
-/

namespace SatNav.Binary64

open Float.Model Float.Model.UnpackedFloat

/-- The logarithm of the library where `f` is that of the system. -/
def log10With (f : Float → Float) (x : Float) : Float :=
  if x < 0 then 0.0 / 0.0
  else if x == 0 then -1.0 / 0.0
  else if x.isFinite then f x
  else x

/-- The library over another logarithm of the system. -/
abbrev withLog (f : Float → Float) : Scalar Float :=
  { (inferInstance : Scalar Float) with log10 := log10With f }

theorem withLog_log10 : withLog Float.log10 = (inferInstance : Scalar Float) := rfl

/-- A logarithm to the base ten as far as it matters here. No positive double is below the 324th
negative power of ten or above the 309th positive one. -/
def IsCommonLog (f : Float → Float) : Prop :=
  ∀ x : Float, x.isFinite = true → 0.0 < x → ∃ c : ℝ, value (f x) = some (c : EReal) ∧ |c| ≤ 324

theorem isNaN_iff (x : Float) : x.isNaN = true ↔ value x = none := by
  change x.toModel.unpack.isNaN = true ↔ _
  rw [value]
  cases x.toModel.unpack <;> simp [UnpackedFloat.isNaN, unpackedValue]

/-! ### Undefined operands -/

variable {x y : Float}

theorem value_mul_none (y : Float) (hx : value x = none) : value (y * x) = none := by
  rw [Option.eq_none_iff_forall_ne_some]
  intro c hc
  obtain ⟨_, b, -, hb⟩ := exists_values_of_mul hc
  cases hx.symm.trans hb

theorem value_sub_none (y : Float) (hx : value x = none) : value (x - y) = none := by
  rw [Option.eq_none_iff_forall_ne_some]
  intro c hc
  rw [sub_eq_add] at hc
  obtain ⟨a, _, ha, -⟩ := value_add_eq_some hc
  cases hx.symm.trans ha

/-- A product with a positive factor is defined also where the other one is infinite. -/
theorem value_mul_of_pos {c : ℝ} {a : EReal} (hx : value x = some (c : EReal)) (hc : 0 < c)
    (hy : value y = some a) : value (x * y) = some (round (c * a)) := by
  rcases infinite_or_real hy with ⟨s, hs, rfl⟩ | ⟨r, rfl⟩
  · rcases eq_zero_or_finite hx with ⟨rfl, -⟩ | ⟨t, m, e, hm, rfl, hu⟩
    · exact absurd hc (lt_irrefl 0)
    · have hproduct := signed_top_mul_signed_coe s t (v := m * 2 ^ e) (by positivity)
      have hround : round (signed (s * t) ⊤) = signed (s * t) ⊤ := by
        cases s * t <;> simp [signed]
      rw [mul_comm, hproduct, hround, mul_comm_value, value_mul, hs, hu]
      exact value_pack_infinity _
  · rw [value_mul_coe hx hy, EReal.coe_mul]

/-! ### The logarithm -/

variable {f : Float → Float}

theorem value_log10With_top (hx : value x = some ⊤) : value (log10With f x) = some ⊤ := by
  have hpositive : ¬ x < 0 := by
    rw [lt_iff_of_value hx value_zero]
    exact not_top_lt
  have hnonzero : ¬ (x == 0) = true := by
    rw [beq_iff_of_value hx value_zero]
    exact EReal.top_ne_coe 0
  have hinfinite : ¬ x.isFinite = true := by
    rw [isFinite_iff]
    rintro ⟨r, hr⟩
    exact EReal.coe_ne_top r (Option.some.inj (hr.symm.trans hx))
  rwa [log10With, if_neg hpositive, if_neg hnonzero, if_neg hinfinite]

theorem value_log10With_of_neg {a : EReal} (hx : value x = some a) (ha : a < 0) :
    value (log10With f x) = none := by
  have hnegative : x < 0 := (lt_iff_of_value hx value_zero).mpr ha
  rw [log10With, if_pos hnegative, ← isNaN_iff]
  decide +kernel

theorem value_log10With_of_pos (hf : IsCommonLog f) {r : ℝ} (hx : value x = some (r : EReal))
    (hr : 0 < r) : ∃ c : ℝ, value (log10With f x) = some (c : EReal) ∧ |c| ≤ 324 := by
  have hpositive : ¬ x < 0 := by
    rw [lt_iff_of_value hx value_zero, EReal.coe_lt_coe_iff]
    exact hr.not_gt
  have hnonzero : ¬ (x == 0) = true := by
    rw [beq_iff_of_value hx value_zero, EReal.coe_eq_coe_iff]
    exact hr.ne'
  have hfinite : x.isFinite = true := (isFinite_iff x).mpr ⟨r, hx⟩
  have hlower : 0.0 < x := by
    rwa [lt_iff_of_value value_decimal_zero hx, EReal.coe_lt_coe_iff]
  rw [log10With, if_neg hpositive, if_neg hnonzero, if_pos hfinite]
  exact hf x hfinite hlower

theorem value_log10With_of_nonneg (hf : IsCommonLog f) {r : ℝ} (hx : value x = some (r : EReal))
    (hr : 0 ≤ r) : ∃ c, value (log10With f x) = some c ∧ c ≤ ((324 : ℝ) : EReal) := by
  rcases hr.eq_or_lt with rfl | hpos
  · have hpositive : ¬ x < 0 := by
      rw [lt_iff_of_value hx value_zero]
      exact lt_irrefl _
    have hzero : (x == 0) = true := (beq_iff_of_value hx value_zero).mpr rfl
    have hpole : (-1.0 / 0.0 : Float).toModel.unpack = .infinity .negative := rfl
    refine ⟨⊥, ?_, bot_le⟩
    rw [log10With, if_neg hpositive, if_pos hzero, value, hpole]
    rfl
  · obtain ⟨c, hc, habs⟩ := value_log10With_of_pos hf hx hpos
    exact ⟨c, hc, EReal.coe_le_coe_iff.mpr (le_of_abs_le habs)⟩

/-! ### Decibels -/

theorem value_ten_literal : value 10.0 = some ((10 : ℝ) : EReal) := by
  exact_mod_cast value_literal (n := 10) (by norm_num)

/-- What is taken off in decibels is a number. -/
theorem exists_value_ten_mul {m : ℝ} (hy : value y = some (m : EReal)) (hm : |m| ≤ 324) :
    ∃ t : ℝ, value (10.0 * y) = some (t : EReal) ∧ -3240 ≤ t := by
  have hbound : Representable 3240 := by
    exact_mod_cast representable_intCast (n := 3240) (by norm_num)
  obtain ⟨hlower, hupper⟩ := abs_le.mp hm
  obtain ⟨t, ht, hlow, -⟩ := exists_round_between (r := 10 * m) hbound.neg hbound (by linarith)
    (by linarith)
  exact ⟨t, by rw [value_mul_coe value_ten_literal hy, ht], hlow⟩

theorem value_decibels_top {m : ℝ} (hx : value x = some ⊤) (hy : value y = some (m : EReal))
    (hm : |m| ≤ 324) : value (10.0 * x - 10.0 * y) = some ⊤ := by
  obtain ⟨t, ht, -⟩ := exists_value_ten_mul hy hm
  have hten : (0 : ℝ) < 10 := by norm_num
  have htop := value_mul_of_pos value_ten_literal hten hx
  rw [EReal.coe_mul_top_of_pos hten, round_top] at htop
  rw [value_sub htop ht (.inr (EReal.coe_ne_bot t)) (.inr (EReal.coe_ne_top t)),
    EReal.top_sub_coe, round_top]

theorem value_decibels_lt_top {a : EReal} {m : ℝ} (hx : value x = some a)
    (ha : a ≤ ((324 : ℝ) : EReal)) (hy : value y = some (m : EReal)) (hm : |m| ≤ 324) :
    ∃ c, value (10.0 * x - 10.0 * y) = some c ∧ c < ⊤ := by
  obtain ⟨t, ht, hlow⟩ := exists_value_ten_mul hy hm
  have hten : (0 : ℝ) < 10 := by norm_num
  have hproduct := value_mul_of_pos value_ten_literal hten hx
  have hbound : Representable 3240 := by
    exact_mod_cast representable_intCast (n := 3240) (by norm_num)
  have hbound' : Representable 6480 := by
    exact_mod_cast representable_intCast (n := 6480) (by norm_num)
  have hle : round ((10 : ℝ) * a) ≤ ((3240 : ℝ) : EReal) := by
    rw [← hbound.round]
    refine round_mono ((mul_le_mul_of_nonneg_left ha (EReal.coe_nonneg.mpr hten.le)).trans_eq ?_)
    rw [← EReal.coe_mul]
    norm_num
  refine ⟨_, value_sub hproduct ht (.inr (EReal.coe_ne_bot t)) (.inr (EReal.coe_ne_top t)), ?_⟩
  calc round (round ((10 : ℝ) * a) - t) ≤ round ((6480 : ℝ) : EReal) := by
        refine round_mono ((EReal.sub_le_sub hle (EReal.coe_le_coe_iff.mpr hlow)).trans_eq ?_)
        rw [← EReal.coe_sub]
        norm_num
    _ = ((6480 : ℝ) : EReal) := hbound'.round
    _ < ⊤ := EReal.coe_lt_top _

end SatNav.Binary64
