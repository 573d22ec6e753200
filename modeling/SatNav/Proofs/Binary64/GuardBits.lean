import SatNav.Proofs.Binary64.Nearest

/-!
# How a result is rounded

The arithmetic of `Float` computes on an unpacked form, a sign, a significand and an
exponent, and drops the bits of the significand that do not fit. Of these it keeps two,
which tell on which side of the middle of two neighbours the exact result lies.
`Residual` is what they say of the part that was dropped, and `roundWithAccuracy_eq`
that this is enough: the significand that comes out is the nearest one.
-/

namespace SatNav.Binary64

open Float.Model Float.Model.UnpackedFloat

/-! ### Dropped bits -/

/-- What is known of the part `r` of a number that a whole significand leaves out. -/
def Residual : Accuracy → ℝ → Prop
  | .exact, r => r = 0
  | .inexact .lt, r => 0 < r ∧ r + r < 1
  | .inexact .eq, r => r + r = 1
  | .inexact .gt, r => 1 < r + r ∧ r < 1

theorem Residual.nonneg {accuracy : Accuracy} {r : ℝ} (h : Residual accuracy r) : 0 ≤ r := by
  rcases accuracy with _ | _ | _ | _ <;> simp only [Residual] at h <;> linarith

theorem Residual.lt_one {accuracy : Accuracy} {r : ℝ} (h : Residual accuracy r) : r < 1 := by
  rcases accuracy with _ | _ | _ | _ <;> simp only [Residual] at h <;> linarith

theorem floor_of_residual {m : ℕ} {accuracy : Accuracy} {q : ℝ}
    (h : Residual accuracy (q - m)) : ⌊q⌋ = m := by
  have hlow := h.nonneg
  have hhigh := h.lt_one
  rw [Int.floor_eq_iff]
  push_cast
  constructor <;> linarith

theorem roundToNearestEven_eq {m : ℕ} {accuracy : Accuracy} {q : ℝ}
    (h : Residual accuracy (q - m)) :
    (accuracy.roundToNearestEven m : ℤ) = nearestEven q := by
  have hfloor := floor_of_residual h
  have hfract : Int.fract q = q - m := by
    rw [Int.fract, hfloor]
    rfl
  unfold nearestEven
  rw [hfract, hfloor]
  match accuracy, h with
  | .exact, h =>
    rw [if_pos (h.trans_lt (by norm_num))]
    rfl
  | .inexact .lt, h =>
    have hlt : q - m < 1 / 2 := by linarith [h.2]
    rw [if_pos hlt]
    rfl
  | .inexact .eq, h =>
    have heq : q - m = 1 / 2 := by linarith [show q - m + (q - m) = 1 from h]
    rw [if_neg heq.not_lt, if_pos heq]
    rfl
  | .inexact .gt, h =>
    have hgt : 1 / 2 < q - m := by linarith [h.1]
    rw [if_neg hgt.not_gt, if_neg hgt.ne']
    rfl

/-- A significand with its two extra bits stands for the number `q`. -/
def Describes (em : ExtendedMantissa) (q : ℝ) : Prop := Residual em.accuracy (q - em.mantissa)

theorem describes_ofMantissaAndAccuracy {m : ℕ} {accuracy : Accuracy} {q : ℝ}
    (h : Residual accuracy (q - m)) :
    Describes (.ofMantissaAndAccuracy m accuracy) q := by
  rcases accuracy with _ | _ | _ | _ <;> exact h

/-- Either bit is set where something was dropped at all. -/
theorem Describes.dropped {em : ExtendedMantissa} {q : ℝ} (h : Describes em q) :
    ((em.roundBit || em.stickyBit) = false ∧ q - em.mantissa = 0) ∨
      ((em.roundBit || em.stickyBit) = true ∧ 0 < q - em.mantissa ∧ q - em.mantissa < 1) := by
  obtain ⟨m, roundBit, stickyBit⟩ := em
  have hlow := Residual.nonneg h
  have hhigh := Residual.lt_one h
  match roundBit, stickyBit, h with
  | false, false, h => exact .inl ⟨rfl, h⟩
  | false, true, h => exact .inr ⟨rfl, h.1, hhigh⟩
  | true, false, h =>
    have heq : q - m + (q - m) = 1 := h
    exact .inr ⟨rfl, by linarith, hhigh⟩
  | true, true, h => exact .inr ⟨rfl, by linarith [h.1], h.2⟩

/-- The bit shifted out becomes the round bit, and the old round bit joins the sticky bit. -/
theorem Describes.shiftRightOne {em : ExtendedMantissa} {q : ℝ} (h : Describes em q) :
    Describes em.shiftRightOne (q / 2) := by
  have hdiv : (em.mantissa : ℝ) = 2 * (em.mantissa / 2 : ℕ) + (em.mantissa % 2 : ℕ) := by
    exact_mod_cast (Nat.div_add_mod em.mantissa 2).symm
  rcases Nat.mod_two_eq_zero_or_one em.mantissa with hbit | hbit <;>
    rw [hbit] at hdiv <;> push_cast at hdiv <;>
    rcases h.dropped with ⟨hsticky, hq⟩ | ⟨hsticky, hlow, hhigh⟩ <;>
    simp only [Describes, ExtendedMantissa.shiftRightOne, hbit, hsticky, bne_self_eq_false,
      Nat.reduceBNe, ExtendedMantissa.accuracy, Residual]
  · linarith
  · constructor <;> linarith
  · linarith
  · constructor <;> linarith

theorem Describes.shiftRight {em : ExtendedMantissa} {q : ℝ} (h : Describes em q) (n : ℕ) :
    Describes (em >>> n) (q / 2 ^ n) := by
  change Describes (n.repeat ExtendedMantissa.shiftRightOne em) _
  induction n with
  | zero => simpa [Nat.repeat] using h
  | succ n ih =>
    rw [Nat.repeat, pow_succ, ← div_div]
    exact ih.shiftRightOne

theorem Describes.roundedMantissa_eq {em : ExtendedMantissa} {q : ℝ} (h : Describes em q) :
    (em.roundedMantissa : ℤ) = nearestEven q := roundToNearestEven_eq h

/-! ### Exponents -/

theorem targetExponent_eq (m : ℕ) (e : ℤ) :
    Format.binary64.targetExponent (totalExponent m e) = max (m.log2 + e - 52) (-1074) := by
  simp only [Format.targetExponent, totalExponent, Format.minExponent, Format.mantissaBits]
  norm_num
  omega

theorem two_pow_log2_le {m : ℕ} (hm : 0 < m) : (2 : ℝ) ^ (m.log2 : ℤ) ≤ m := by
  rw [zpow_natCast]
  exact_mod_cast Nat.log2_self_le hm.ne'

theorem lt_two_pow_log2 (m : ℕ) : (m : ℝ) + 1 ≤ 2 ^ (m.log2 + 1 : ℤ) := by
  have : m < 2 ^ (m.log2 + 1) := Nat.lt_log2_self
  exact_mod_cast this

/-- The exponent that a significand asks for is that of the last place of the number it begins. -/
theorem targetExponent_eq_lastPlace {m : ℕ} (hm : 0 < m) (e : ℤ) {q : ℝ} (hlow : (m : ℝ) ≤ q)
    (hhigh : q < m + 1) :
    Format.binary64.targetExponent (totalExponent m e) = lastPlace (q * 2 ^ e) := by
  have hpow : (0 : ℝ) < 2 ^ e := zpow_pos (by norm_num) _
  have hq : 0 < q := lt_of_lt_of_le (by exact_mod_cast hm) hlow
  rw [targetExponent_eq]
  refine le_antisymm (max_le (le_lastPlace ?_) (neg_le_lastPlace _))
    (lastPlace_le (mul_pos hq hpow) (le_max_right ..) ?_)
  · calc (2 : ℝ) ^ ((m.log2 : ℤ) + e - 52 + 52) = 2 ^ (m.log2 : ℤ) * 2 ^ e := by
          rw [sub_add_cancel, zpow_add₀ (by norm_num)]
      _ ≤ q * 2 ^ e := mul_le_mul_of_nonneg_right ((two_pow_log2_le hm).trans hlow) hpow.le
  · calc q * 2 ^ e < 2 ^ (m.log2 + 1 : ℤ) * 2 ^ e :=
          mul_lt_mul_of_pos_right (hhigh.trans_le (lt_two_pow_log2 m)) hpow
      _ = 2 ^ ((m.log2 : ℤ) + 1 + e) := (zpow_add₀ (by norm_num) _ _).symm
      _ ≤ 2 ^ (max ((m.log2 : ℤ) + e - 52) (-1074) + 53) :=
          zpow_le_zpow_right₀ (by norm_num) (by omega)

/-- A number below one unit is described in units of its last place only if it is subnormal. -/
theorem targetExponent_eq_lastPlace_of_lt_one {e : ℤ} {q : ℝ} (hpos : 0 < q) (hone : q < 1)
    (he : e ≤ lastPlace (q * 2 ^ e)) :
    Format.binary64.targetExponent (totalExponent 0 e) = lastPlace (q * 2 ^ e) := by
  have hpow : (0 : ℝ) < 2 ^ e := zpow_pos (by norm_num) _
  have hplace : lastPlace (q * 2 ^ e) ≤ max (e - 53) (-1074) :=
    lastPlace_le (mul_pos hpos hpow) (le_max_right ..)
      ((mul_lt_of_lt_one_left hpow hone).trans_le (zpow_le_zpow_right₀ (by norm_num) (by omega)))
  have := neg_le_lastPlace (q * 2 ^ e)
  rw [targetExponent_eq, Nat.log2_zero, Nat.cast_zero]
  omega

theorem snd_shiftToTargetExponent {m : ℕ} {e : ℤ} (accuracy : Accuracy)
    (h : e ≤ Format.binary64.targetExponent (totalExponent m e)) :
    (shiftToTargetExponent Format.binary64 m e accuracy).2 =
      Format.binary64.targetExponent (totalExponent m e) := by
  simp only [shiftToTargetExponent, shiftToExponent]
  omega

/-- A number is described in units of its last place once the bits below it are dropped. -/
theorem describes_shiftToTargetExponent {m : ℕ} {e : ℤ} {accuracy : Accuracy} {q : ℝ}
    (h : Residual accuracy (q - m)) (he : e ≤ Format.binary64.targetExponent (totalExponent m e)) :
    Describes (shiftToTargetExponent Format.binary64 m e accuracy).1
      (q * 2 ^ e / 2 ^ Format.binary64.targetExponent (totalExponent m e)) := by
  obtain ⟨n, hn⟩ := Int.le.dest he
  have hshift : (Format.binary64.targetExponent (totalExponent m e) - e).toNat = n := by omega
  have hquotient : q * 2 ^ e / 2 ^ (e + n : ℤ) = q / 2 ^ n := by
    rw [zpow_add₀ (by norm_num), zpow_natCast, ← div_div,
      mul_div_cancel_right₀ _ (zpow_ne_zero _ (by norm_num))]
  simp only [shiftToTargetExponent, shiftToExponent, hshift]
  rw [← hn, hquotient]
  exact (describes_ofMantissaAndAccuracy h).shiftRight n

end SatNav.Binary64
