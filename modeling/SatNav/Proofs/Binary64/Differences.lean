import SatNav.Proofs.Binary64.Ranges

/-!
# Differences of doubles

From a positive number on, doubles are whole multiples of the unit in its last place, and so are
their differences. So the difference of two doubles does not underflow, and a number divided by what
a larger one exceeds it by is finite. The difference of equal numbers is a zero with a positive
sign: what is positive and divided by it is plus infinity.
-/

namespace SatNav.Binary64

open Float.Model Float.Model.UnpackedFloat

/-! ### Multiples of a unit -/

/-- Every double is a multiple of the least one. -/
theorem Representable.exists_multiple_least {r : ℝ} (h : Representable r) :
    ∃ n : ℤ, r = n * 2 ^ (-1074 : ℤ) := by
  obtain ⟨-, m, e, -, he, heq⟩ := h
  exact exists_multiple_of_abs_eq heq he

/-- From `a` on doubles are multiples of the unit in the last place of `a`. -/
theorem Representable.exists_multiple_lastPlace {a b : ℝ} (hb : Representable b) (ha : 0 < a)
    (hab : a ≤ b) : ∃ n : ℤ, b = n * 2 ^ lastPlace a := by
  rcases (neg_le_lastPlace a).lt_or_eq with hplace | hplace
  · refine hb.exists_multiple ?_
    rw [abs_of_pos (ha.trans_le hab)]
    exact (zpow_lastPlace_le ha hplace).trans hab
  · rw [← hplace]
    exact hb.exists_multiple_least

/-- What lies between two doubles is rounded to one between them. -/
theorem exists_round_between {low r high : ℝ} (hlow : Representable low)
    (hhigh : Representable high) (h : low ≤ r) (h' : r ≤ high) :
    ∃ c : ℝ, round (r : EReal) = c ∧ low ≤ c ∧ c ≤ high := by
  have hle : (low : EReal) ≤ round r :=
    hlow.round.symm.trans_le (round_mono (EReal.coe_le_coe_iff.mpr h))
  have hge : round r ≤ (high : EReal) :=
    (round_mono (EReal.coe_le_coe_iff.mpr h')).trans_eq hhigh.round
  lift round r to ℝ using ⟨(hge.trans_lt (EReal.coe_lt_top high)).ne,
    ((EReal.bot_lt_coe low).trans_le hle).ne'⟩ with c
  exact ⟨c, rfl, EReal.coe_le_coe_iff.mp hle, EReal.coe_le_coe_iff.mp hge⟩

/-! ### Quotients by a difference -/

variable {x y : Float} {a b : ℝ}

/-- Numbers that are equal and not zero differ by a zero with a positive sign. -/
theorem unpack_sub_self (hx : value x = some (a : EReal)) (hy : value y = some (a : EReal))
    (ha : a ≠ 0) : (x - y).toModel.unpack = .zero .positive := by
  rcases eq_zero_or_finite hx with ⟨hzero, -⟩ | ⟨s, m, e, hm, hxa, hxu⟩
  · exact absurd hzero ha
  rcases eq_zero_or_finite hy with ⟨hzero, -⟩ | ⟨t, n, f, hn, hya, hyu⟩
  · exact absurd hzero ha
  have hequal : s.apply (decreaseExponent m e (min e f)).1 -
      t.apply (decreaseExponent n f (min e f)).1 = (0 : ℤ) := by
    have hfirst := apply_decreaseExponent s m (min_le_left e f)
    have hsecond := apply_decreaseExponent t n (min_le_right e f)
    rw [← hxa] at hfirst
    rw [← hya, ← hfirst] at hsecond
    have hunit : (2 : ℝ) ^ min e f ≠ 0 := zpow_ne_zero _ (by norm_num)
    rw [sub_eq_zero]
    exact_mod_cast (mul_right_cancel₀ hunit hsecond).symm
  have hdifference : UnpackedFloat.sub Format.binary64 x.toModel.unpack y.toModel.unpack =
      .zero .positive := by
    rw [hxu, hyu]
    change UnpackedFloat.normalize Format.binary64 (s.apply (decreaseExponent m e (min e f)).1 -
      t.apply (decreaseExponent n f (min e f)).1) _ _ = _
    rw [hequal]
    rfl
  change (Float.Model.pack (UnpackedFloat.sub Format.binary64 x.toModel.unpack
    y.toModel.unpack)).unpack = _
  rw [hdifference, unpack_model_pack (u := .zero .positive) trivial]
  rfl

theorem value_div_positive_zero (hx : value x = some (a : EReal)) (ha : 0 < a)
    (hy : y.toModel.unpack = .zero .positive) : value (x / y) = some ⊤ := by
  rcases eq_zero_or_finite hx with ⟨hzero, -⟩ | ⟨s, m, e, hm, hxa, hxu⟩
  · exact absurd hzero ha.ne'
  · have hv : (0 : ℝ) ≤ m * 2 ^ e := by positivity
    rw [value_div, hxu, hy]
    cases s with
    | negative =>
      rw [hxa] at ha
      exact absurd ha (neg_nonpos.mpr hv).not_gt
    | positive => exact value_pack_infinity .positive

theorem value_sub_coe (hx : value x = some (a : EReal)) (hy : value y = some (b : EReal)) :
    value (x - y) = some (round ((a - b : ℝ) : EReal)) := by
  rw [value_sub hx hy (.inl (EReal.coe_ne_bot a)) (.inl (EReal.coe_ne_top a)), EReal.coe_sub]

/-- A positive number by nothing. -/
theorem value_div_excess_of_eq (hx : value x = some (a : EReal)) (hy : value y = some (a : EReal))
    (ha : 0 < a) : value (x / (y - x)) = some ⊤ :=
  value_div_positive_zero hx ha (unpack_sub_self hy hx ha.ne')

/-- A positive number by what a larger one exceeds it by. The excess is at least a unit in the last
place. -/
theorem value_div_excess_of_lt (hx : value x = some (a : EReal)) (hy : value y = some (b : EReal))
    (ha : 0 < a) (hab : a < b) : ∃ c : ℝ, value (x / (y - x)) = some (c : EReal) ∧ 0 ≤ c := by
  have hra := representable_of_value hx
  have hrb := representable_of_value hy
  have hunit : (0 : ℝ) < 2 ^ lastPlace a := zpow_pos (by norm_num) _
  obtain ⟨m, hm⟩ := hra.exists_multiple_lastPlace ha le_rfl
  obtain ⟨n, hn⟩ := hrb.exists_multiple_lastPlace ha hab.le
  have hexcess : 2 ^ lastPlace a ≤ b - a := le_sub_of_multiples hunit hm hn hab
  have hplace : lastPlace a < 1024 := by
    have hlimit := hrb.1
    rw [abs_of_pos (ha.trans hab)] at hlimit
    have hsmall : (2 : ℝ) ^ lastPlace a < limit := by linarith
    exact (zpow_lt_zpow_iff_right₀ (by norm_num)).mp hsmall
  -- the unit is a double, so the excess is not rounded below it
  obtain ⟨d, hd, hd0, -⟩ := exists_round_between
    (representable_zpow (neg_le_lastPlace a) hplace) hrb hexcess (sub_le_self b ha.le)
  have hd' : 0 < d := hunit.trans_le hd0
  have hratio : a / d ≤ 2 ^ (53 : ℤ) := by
    rw [div_le_iff₀ hd', mul_comm]
    calc a ≤ 2 ^ (lastPlace a + 53) := lt_zpow_lastPlace.le
      _ = 2 ^ lastPlace a * 2 ^ (53 : ℤ) := zpow_add₀ (by norm_num) _ _
      _ ≤ d * 2 ^ (53 : ℤ) := mul_le_mul_of_nonneg_right hd0 (zpow_nonneg (by norm_num) _)
  obtain ⟨c, hc, hc0, -⟩ := exists_round_between representable_zero
    (representable_zpow (e := 53) (by norm_num) (by norm_num)) (div_nonneg ha.le hd'.le) hratio
  refine ⟨c, ?_, hc0⟩
  rw [value_div_coe hx ((value_sub_coe hy hx).trans (congrArg some hd)) hd'.ne', hc]

/-- A positive number by what a smaller one falls short of it by. -/
theorem value_div_excess_of_gt (hx : value x = some (a : EReal)) (hy : value y = some (b : EReal))
    (hb : 0 ≤ b) (hab : b < a) : ∃ c, value (x / (y - x)) = some c ∧ c < 0 := by
  have hra := representable_of_value hx
  obtain ⟨m, hm⟩ := hra.exists_multiple_least
  obtain ⟨n, hn⟩ := (representable_of_value hy).exists_multiple_least
  have hshort : 2 ^ (-1074 : ℤ) ≤ a - b :=
    le_sub_of_multiples (zpow_pos (by norm_num) _) hn hm hab
  obtain ⟨d, hd, hlow, hhigh⟩ := exists_round_between hra.neg
    (representable_zpow (e := -1074) le_rfl (by norm_num)).neg (by linarith : -a ≤ b - a)
    (by linarith)
  have hd0 : d < 0 := hhigh.trans_lt (neg_lt_zero.mpr (zpow_pos (by norm_num) _))
  have hratio : a / d ≤ -1 := by
    rw [div_le_iff_of_neg hd0]
    linarith
  refine ⟨_, value_div_coe hx ((value_sub_coe hy hx).trans (congrArg some hd)) hd0.ne, ?_⟩
  have hminus : Representable (-1) := by
    simpa using representable_intCast (n := -1) (by norm_num)
  calc round ((a / d : ℝ) : EReal) ≤ round ((-1 : ℝ) : EReal) :=
        round_mono (EReal.coe_le_coe_iff.mpr hratio)
    _ = ((-1 : ℝ) : EReal) := hminus.round
    _ < 0 := by
        rw [← EReal.coe_zero, EReal.coe_lt_coe_iff]
        norm_num

end SatNav.Binary64
