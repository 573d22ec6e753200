import SatNav.Json.Number
import SatNav.Proofs.Binary64.Results

/-!
# The doubles that numbers are read as

A number that is read is finite. If it has few digits and a small power of ten it is read
as the double nearest to it: its digits and the power of ten are doubles then, so that
only the product or the quotient is rounded. Other numbers are rounded more than once.
-/

namespace SatNav.Json.Number

open Binary64

/-! ### Digits that fit -/

theorem le_foldl_appendDigit (count : ℕ) (digits : List Char) :
    count ≤ digits.foldl appendDigit count := by
  induction digits generalizing count with
  | nil => exact le_rfl
  | cons c rest ih =>
    have hlonger : count ≤ appendDigit count c := by
      unfold appendDigit
      omega
    exact hlonger.trans (ih _)

theorem appendDigits_eq {count : ℕ} {digits : List Char}
    (h : digits.foldl appendDigit count < UInt64.size) :
    appendDigits count digits = (digits.foldl appendDigit count, 0) := by
  induction digits generalizing count with
  | nil => rfl
  | cons c rest ih =>
    rw [List.foldl_cons] at h ⊢
    rw [appendDigits, if_pos ((le_foldl_appendDigit _ rest).trans_lt h), ih h]

/-- Digits that fit 64 bits are all taken. -/
theorem scaled_eq {n : Number} (h : digitsValue (n.whole ++ n.fraction) < UInt64.size) :
    n.scaled =
      (digitsValue (n.whole ++ n.fraction), n.power.getD 0 - (n.fraction.length : ℤ)) := by
  rw [digitsValue, List.foldl_append] at h ⊢
  have hwhole := (le_foldl_appendDigit _ n.fraction).trans_lt h
  simp only [scaled, appendDigits_eq hwhole, appendDigits_eq h, Nat.cast_zero, add_zero,
    Nat.sub_zero]

/-! ### Powers of ten -/

theorem five_pow_lt {k : ℕ} (h : k ≤ 22) : 5 ^ k < 2 ^ 53 :=
  (Nat.pow_le_pow_right (by decide) h).trans_lt (by decide)

theorem five_pow_mul_two_pow (k : ℕ) : ((5 ^ k : ℕ) : ℝ) * ((2 ^ k : ℕ) : ℝ) = 10 ^ k := by
  push_cast
  rw [← mul_pow]
  norm_num

theorem powerOfTen_eq : ∀ k ≤ 22,
    powerOfTen k = (5 ^ k).toUInt64.toFloat * (2 ^ k).toUInt64.toFloat := by
  decide +kernel

theorem value_powerOfTen {k : ℕ} (h : k ≤ 308) :
    value (powerOfTen k) = some (round ((10 ^ k : ℝ) : EReal)) := by
  by_cases hsmall : k ≤ 22
  · have htwo : 2 ^ k < 2 ^ 53 := (Nat.pow_le_pow_left (by decide) k).trans_lt (five_pow_lt hsmall)
    rw [powerOfTen_eq k hsmall,
      value_mul_coe (value_toFloat_of_lt (five_pow_lt hsmall)) (value_toFloat_of_lt htwo),
      five_pow_mul_two_pow]
  · have hslow : powerOfTen k = .ofModel (Float.Model.ofScientific 1 k) :=
      dif_neg fun hfast => hsmall hfast.2
    have hrounds := rounds_ofScientific Nat.one_pos (h.trans (by decide : 308 ≤ 2048))
    rw [Nat.cast_one, one_mul] at hrounds
    rw [hslow]
    exact value_pack hrounds

theorem exists_value_powerOfTen {k : ℕ} (h : k ≤ 308) :
    ∃ b : ℝ, value (powerOfTen k) = some (b : EReal) ∧ 1 ≤ b := by
  have hone : (1 : ℝ) ≤ 10 ^ k := one_le_pow₀ (by norm_num)
  have hbound : |(10 : ℝ) ^ k| < overflowBound := by
    have hlargest : 10 ^ 308 < (2 ^ 54 - 1) * 2 ^ 970 := by decide +kernel
    rw [abs_of_nonneg (by positivity)]
    calc (10 : ℝ) ^ k ≤ 10 ^ 308 := pow_le_pow_right₀ (by norm_num) h
      _ < overflowBound := by
        rw [overflowBound]
        exact_mod_cast hlargest
  obtain ⟨b, hb⟩ := exists_round_eq_coe_iff.mpr hbound
  refine ⟨b, by rw [value_powerOfTen h, hb], ?_⟩
  have hmono := round_mono (EReal.coe_le_coe_iff.mpr hone)
  have hround : round ((1 : ℝ) : EReal) = ((1 : ℝ) : EReal) := by
    exact_mod_cast round_natCast (n := 1) (by norm_num)
  rw [hround, hb] at hmono
  exact EReal.coe_le_coe_iff.mp hmono

/-! ### Finite numbers -/

theorem isFinite_toFloat (n : UInt64) : n.toFloat.isFinite = true := by
  have hbound : |((n.toNat : ℕ) : ℝ)| < overflowBound := by
    rw [abs_of_nonneg (Nat.cast_nonneg _)]
    calc ((n.toNat : ℕ) : ℝ) < 2 ^ (64 : ℤ) := by exact_mod_cast n.toNat_lt
      _ ≤ 2 ^ (1023 : ℤ) := zpow_le_zpow_right₀ (by norm_num) (by norm_num)
      _ ≤ overflowBound := zpow_le_overflowBound
  obtain ⟨c, hc⟩ := exists_round_eq_coe_iff.mpr hbound
  exact (isFinite_iff _).mpr ⟨c, by rw [value_toFloat, hc]⟩

/-- A quotient by a power of ten is not larger than what is divided. -/
theorem isFinite_div_powerOfTen {x : Float} (hx : x.isFinite = true) {k : ℕ} (hk : k ≤ 308) :
    (x / powerOfTen k).isFinite = true := by
  obtain ⟨a, ha⟩ := (isFinite_iff x).mp hx
  obtain ⟨b, hb, hone⟩ := exists_value_powerOfTen hk
  have hpos : 0 < b := one_pos.trans_le hone
  refine (isFinite_div_iff ..).mpr ⟨a, ha, .inr ⟨b, hb, hpos.ne', ?_⟩⟩
  calc |a / b| = |a| / b := by rw [abs_div, abs_of_pos hpos]
    _ ≤ |a| := div_le_self (abs_nonneg a) hone
    _ < overflowBound :=
      exists_round_eq_coe_iff.mp ⟨a, (representable_of_value ha).round⟩

theorem isFinite_scaleDown {x : Float} (hx : x.isFinite = true) (k : ℕ) :
    (scaleDown x k).isFinite = true := by
  fun_induction scaleDown x k with
  | case1 x k hk => exact isFinite_div_powerOfTen hx hk
  | case2 x k hk hzero => exact hx
  | case3 x k hk hzero ih => exact ih (isFinite_div_powerOfTen hx le_rfl)

theorem isFinite_of_scaleUp? {x y : Float} (hx : x.isFinite = true) {k : ℕ}
    (h : scaleUp? x k = some y) : y.isFinite = true := by
  unfold scaleUp? at h
  dsimp only at h
  split at h
  · next hk =>
    obtain ⟨a, ha⟩ := (isFinite_iff x).mp hx
    obtain ⟨b, hb, -⟩ := exists_value_powerOfTen hk
    obtain ⟨hinf, hy⟩ := Option.ite_none_left_eq_some.mp h
    obtain rfl := Option.some.inj hy
    rw [isFinite_iff]
    rcases infinite_or_real (value_mul_coe ha hb) with ⟨s, hs, -⟩ | ⟨r, hr⟩
    · exact absurd (congrArg Float.Model.UnpackedFloat.isInf hs) hinf
    · exact ⟨r, (value_mul_coe ha hb).trans (congrArg some hr)⟩
  · split at h
    · cases h
      exact hx
    · cases h

theorem isFinite_neg {x : Float} (hx : x.isFinite = true) : (-x).isFinite = true := by
  obtain ⟨r, hr⟩ := (isFinite_iff x).mp hx
  exact (isFinite_iff _).mpr ⟨-r, by rw [value_neg, hr]; rfl⟩

/-- A number that is read as a double is read as a finite one. -/
theorem isFinite_of_toFloat? {n : Number} {x : Float} (h : n.toFloat? = some x) :
    x.isFinite = true := by
  obtain ⟨y, hy, rfl⟩ := Option.map_eq_some_iff.mp h
  have hdigits := isFinite_toFloat n.scaled.1.toUInt64
  have hfinite : y.isFinite = true := by
    unfold scale? at hy
    split at hy
    · cases hy
      exact isFinite_scaleDown hdigits _
    · exact isFinite_of_scaleUp? hdigits hy
  split
  · exact isFinite_neg hfinite
  · exact hfinite

/-! ### The nearest double -/

/-- The real number that is written. -/
noncomputable def toReal (n : Number) : ℝ :=
  let magnitude : ℝ :=
    digitsValue (n.whole ++ n.fraction) * (10 : ℕ) ^ (n.power.getD 0 - (n.fraction.length : ℤ))
  if n.negative then -magnitude else magnitude

theorem value_powerOfTen_of_le {k : ℕ} (h : k ≤ 22) :
    value (powerOfTen k) = some ((10 ^ k : ℝ) : EReal) := by
  have hproduct : |(10 : ℝ) ^ k| = (5 ^ k : ℕ) * 2 ^ (k : ℤ) := by
    rw [abs_of_nonneg (by positivity), zpow_natCast, ← five_pow_mul_two_pow, Nat.cast_pow 2,
      Nat.cast_ofNat]
  have hrepresentable : Representable (10 ^ k) := by
    refine ⟨?_, 5 ^ k, k, five_pow_lt h, by omega, hproduct⟩
    rw [abs_of_nonneg (by positivity)]
    calc (10 : ℝ) ^ k ≤ 10 ^ 22 := pow_le_pow_right₀ (by norm_num) h
      _ < 2 ^ (74 : ℤ) := by norm_num
      _ < limit := zpow_lt_limit (by norm_num)
  rw [value_powerOfTen (h.trans (by decide)), hrepresentable.round]

theorem isInf_eq_false {x : Float} {r : ℝ} (hx : value x = some (r : EReal)) :
    x.isInf = false := by
  change x.toModel.unpack.isInf = false
  rcases eq_zero_or_finite hx with ⟨-, s, hu⟩ | ⟨s, m, e, hm, -, hu⟩ <;> rw [hu] <;> rfl

section Scaling

variable {x : Float} {d k : ℕ} (hx : value x = some ((d : ℝ) : EReal)) (hk : k ≤ 22)
include hx hk

theorem value_scaleDown :
    value (scaleDown x k) = some (round ((d / 10 ^ k : ℝ) : EReal)) := by
  rw [scaleDown, if_pos (hk.trans (by decide)),
    value_div_coe hx (value_powerOfTen_of_le hk) (by positivity)]

theorem exists_value_scaleUp? (hd : d < 2 ^ 53) :
    ∃ y, scaleUp? x k = some y ∧ value y = some (round ((d * 10 ^ k : ℝ) : EReal)) := by
  have hvalue := value_mul_coe hx (value_powerOfTen_of_le hk)
  have hbound : |(d * 10 ^ k : ℝ)| < overflowBound := by
    have hpower : (10 : ℝ) ^ k ≤ 10 ^ 22 := pow_le_pow_right₀ (by norm_num) hk
    rw [abs_of_nonneg (by positivity)]
    calc (d * 10 ^ k : ℝ) ≤ 2 ^ 53 * 10 ^ 22 := by
          gcongr
          exact_mod_cast hd.le
      _ < 2 ^ (127 : ℤ) := by norm_num
      _ ≤ 2 ^ (1023 : ℤ) := zpow_le_zpow_right₀ (by norm_num) (by norm_num)
      _ ≤ overflowBound := zpow_le_overflowBound
  obtain ⟨c, hc⟩ := exists_round_eq_coe_iff.mpr hbound
  have hinf := isInf_eq_false (hvalue.trans (congrArg some hc))
  refine ⟨_, ?_, hvalue⟩
  rw [scaleUp?, if_pos (hk.trans (by decide))]
  exact if_neg (Bool.eq_false_iff.mp hinf)

end Scaling

theorem exists_value_scale? {x : Float} {d : ℕ} (hx : value x = some ((d : ℝ) : EReal))
    (hd : d < 2 ^ 53) {p : ℤ} (hp : |p| ≤ 22) :
    ∃ y, scale? x p = some y ∧ value y = some (round ((d * 10 ^ p : ℝ) : EReal)) := by
  rw [Int.abs_eq_natAbs] at hp
  have hk : p.natAbs ≤ 22 := by exact_mod_cast hp
  unfold scale?
  split
  · next hneg =>
    have hinverse : (d * 10 ^ p : ℝ) = d / 10 ^ p.natAbs := by
      rw [div_eq_mul_inv, ← zpow_natCast, ← zpow_neg, Int.ofNat_natAbs_of_nonpos hneg.le, neg_neg]
    rw [hinverse]
    exact ⟨_, rfl, value_scaleDown hx hk⟩
  · next hnonneg =>
    have habs : (10 : ℝ) ^ p = 10 ^ p.natAbs := by
      rw [← zpow_natCast, Int.natAbs_of_nonneg (not_lt.mp hnonneg)]
    rw [habs]
    exact exists_value_scaleUp? hx hk hd

/-- A number of few digits with a small power of ten is read as the double nearest to it. -/
theorem exists_nearest_toFloat? {n : Number}
    (hdigits : digitsValue (n.whole ++ n.fraction) < 2 ^ 53)
    (hpower : |n.power.getD 0 - (n.fraction.length : ℤ)| ≤ 22) :
    ∃ x, n.toFloat? = some x ∧ value x = some (round (n.toReal : EReal)) := by
  have hscaled := scaled_eq (hdigits.trans (by decide))
  obtain ⟨y, hy, hvalue⟩ := exists_value_scale? (value_toFloat_of_lt hdigits) hdigits hpower
  refine ⟨if n.negative then -y else y, ?_, ?_⟩
  · simp only [toFloat?, hscaled, hy, Option.map_some]
  · rw [toReal, Nat.cast_ofNat]
    cases n.negative with
    | false => exact hvalue
    | true =>
      rw [if_pos rfl, if_pos rfl, value_neg, hvalue, EReal.coe_neg, round_neg]
      rfl

/-- With a larger power of ten, which is itself rounded, the double can be another one. -/
example : toFloat? ⟨false, ['3'], [], some 23⟩ = some 2.9999999999999997e23 := by decide +kernel

end SatNav.Json.Number
