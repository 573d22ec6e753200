import SatNav.Proofs.Binary64.GuardBits

/-!
# The values of unpacked doubles

`unpackedValue` is the extended real number that an unpacked double stands for, none for
a NaN, and `Canonical` says that its exponent is the least one that its significand
allows. The rounding of the unpacked form is the rounding of its value.
-/

namespace SatNav.Binary64

open Float.Model Float.Model.UnpackedFloat

/-- A magnitude with a sign. -/
def signed {α : Type} [Neg α] : Sign → α → α
  | .negative, a => -a
  | .positive, a => a

/-- The number that an unpacked double stands for. -/
noncomputable def unpackedValue : UnpackedFloat → Option EReal
  | .notANumber => none
  | .infinity s => some (signed s ⊤)
  | .zero _ => some 0
  | .finite s m e _ => some (signed s (m * (2 : ℕ) ^ e : ℝ) : ℝ)

theorem unpackedValue_finite (s : Sign) (m : ℕ) (e : ℤ) (hm : 0 < m) :
    unpackedValue (.finite s m e hm) = some ((signed s (m * 2 ^ e : ℝ) : ℝ) : EReal) := rfl

/-- A significand of at most 53 bits, of fewer only at the least exponent. -/
def Canonical : UnpackedFloat → Prop
  | .finite _ m e _ => m < 2 ^ 53 ∧ -1074 ≤ e ∧ (2 ^ 52 ≤ m ∨ e = -1074)
  | _ => True

theorem signed_zero {s : Sign} : signed s (0 : ℝ) = 0 := by
  cases s <;> simp [signed]

theorem roundReal_signed (s : Sign) {v : ℝ} (hv : 0 ≤ v) :
    roundReal (signed s v) = signed s (roundMagnitude v) := by
  cases s with
  | negative => rw [signed, signed, roundReal_neg, roundReal_of_nonneg hv]
  | positive => rw [signed, signed, roundReal_of_nonneg hv]

theorem signed_apply (s : Sign) (n : ℕ) : ((s.apply n : ℤ) : ℝ) = signed s (n : ℝ) := by
  cases s <;> simp [Sign.apply, signed]

theorem signed_mul (s : Sign) (a b : ℝ) : signed s (a * b) = signed s a * b := by
  cases s <;> simp [signed]

/-! ### Rounding -/

/-- A significand that rounding has made one bit too long is halved, and no other is touched. -/
theorem shiftToTargetExponent_rounded {m : ℕ} {t : ℤ} (hm : m ≤ 2 ^ 53) (ht : -1074 ≤ t) :
    (shiftToTargetExponent Format.binary64 m t .exact).1.mantissa =
        (if m = 2 ^ 53 then 2 ^ 52 else m) ∧
      (shiftToTargetExponent Format.binary64 m t .exact).2 =
        (if m = 2 ^ 53 then t + 1 else t) := by
  have htarget := targetExponent_eq m t
  by_cases hcarry : m = 2 ^ 53
  · rw [if_pos hcarry, if_pos hcarry]
    have hlog : m.log2 = 53 := by rw [hcarry, Nat.log2_two_pow]
    have hshift : (Format.binary64.targetExponent (totalExponent m t) - t).toNat = 1 := by
      rw [htarget, hlog]
      omega
    simp only [shiftToTargetExponent, shiftToExponent, hshift]
    refine ⟨?_, rfl⟩
    change m / 2 = 2 ^ 52
    rw [hcarry]
    norm_num
  · rw [if_neg hcarry, if_neg hcarry]
    have hlog : m.log2 ≤ 52 := by
      rcases Nat.eq_zero_or_pos m with rfl | hpos
      · simp
      · have : m.log2 < 53 := (Nat.log2_lt hpos.ne').mpr (lt_of_le_of_ne hm hcarry)
        omega
    have hshift : (Format.binary64.targetExponent (totalExponent m t) - t).toNat = 0 := by
      rw [htarget]
      omega
    simp only [shiftToTargetExponent, shiftToExponent, hshift]
    exact ⟨rfl, Int.add_zero t⟩

/-- `u` is the number `r` rounded, the size of the exponent left aside. -/
def Rounds (u : UnpackedFloat) (r : ℝ) : Prop :=
  Canonical u ∧ unpackedValue u = some ((roundReal r : ℝ) : EReal)

/-- A number `q * 2 ^ e`, of which the significand and the dropped bits are known, is rounded. -/
theorem rounds_roundWithAccuracy (s : Sign) {m : ℕ} {e : ℤ} {accuracy : Accuracy} {q : ℝ}
    (h : Residual accuracy (q - m)) (hq : 0 < q) (he : e ≤ lastPlace (q * 2 ^ e)) :
    Rounds (roundWithAccuracy Format.binary64 s m e accuracy) (signed s (q * 2 ^ e)) := by
  have hv : 0 < q * 2 ^ e := mul_pos hq (zpow_pos (by norm_num) _)
  have htarget : Format.binary64.targetExponent (totalExponent m e) = lastPlace (q * 2 ^ e) := by
    have hone := h.lt_one
    rcases Nat.eq_zero_or_pos m with rfl | hm
    · exact targetExponent_eq_lastPlace_of_lt_one hq (by simpa using hone) he
    · exact targetExponent_eq_lastPlace hm e (sub_nonneg.mp h.nonneg) (sub_lt_iff_lt_add'.mp hone)
  have hplace := neg_le_lastPlace (q * 2 ^ e)
  have hrounded : ((shiftToTargetExponent Format.binary64 m e accuracy).1.roundedMantissa : ℤ) =
      significand (q * 2 ^ e) := by
    rw [(describes_shiftToTargetExponent h (htarget ▸ he)).roundedMantissa_eq, htarget]
    rfl
  have hexponent := snd_shiftToTargetExponent accuracy (htarget ▸ he)
  have hbound := significand_le (q * 2 ^ e)
  have hfull := le_significand hv
  rw [Rounds, roundReal_signed s hv.le, roundMagnitude]
  unfold roundWithAccuracy
  dsimp only
  rw [hexponent, htarget]
  generalize lastPlace (q * 2 ^ e) = t at *
  generalize (shiftToTargetExponent Format.binary64 m e accuracy).1.roundedMantissa = n at *
  rw [← hrounded] at hbound hfull ⊢
  obtain ⟨hmantissa, hfinal⟩ := shiftToTargetExponent_rounded (by exact_mod_cast hbound) hplace
  split
  · next hzero =>
    have hn : n = 0 := by
      rw [hmantissa] at hzero
      split at hzero
      · cases hzero
      · exact hzero
    refine ⟨trivial, ?_⟩
    simp [unpackedValue, hn, signed_zero]
  · refine ⟨?_, ?_⟩
    · simp only [Canonical, hmantissa, hfinal]
      split <;> omega
    · simp only [unpackedValue_finite, hmantissa, hfinal]
      split
      · next hcarry =>
        have hcarried : ((2 ^ 52 : ℕ) : ℝ) * 2 ^ (t + 1) = ((2 ^ 53 : ℕ) : ℤ) * 2 ^ t := by
          rw [zpow_add_one₀ (by norm_num)]
          push_cast
          ring
        rw [hcarry, hcarried]
      · simp

theorem fst_decreaseExponent (m : ℕ) (e t : ℤ) :
    ((decreaseExponent m e t).1 : ℝ) * 2 ^ min e t = m * 2 ^ e := by
  have hexponent : e = min e t + (e - t).toNat := by omega
  conv_rhs => rw [hexponent, zpow_add₀ (by norm_num), zpow_natCast]
  simp only [decreaseExponent, Nat.shiftLeft_eq]
  push_cast
  ring

theorem snd_decreaseExponent (m : ℕ) (e t : ℤ) : (decreaseExponent m e t).2 = min e t := by
  simp only [decreaseExponent]
  omega

theorem fst_decreaseExponent_pos {m : ℕ} (hm : 0 < m) (e t : ℤ) :
    0 < (decreaseExponent m e t).1 := by
  simp only [decreaseExponent, Nat.shiftLeft_eq]
  positivity

theorem rounds_round (s : Sign) {m : ℕ} (hm : 0 < m) (e : ℤ) :
    Rounds (UnpackedFloat.round Format.binary64 s m e) (signed s (m * 2 ^ e)) := by
  have hplace := targetExponent_eq_lastPlace hm e (le_refl _) (lt_add_one (m : ℝ))
  have hvalue := fst_decreaseExponent m e (Format.binary64.targetExponent (totalExponent m e))
  rw [← hvalue]
  unfold UnpackedFloat.round
  dsimp only
  rw [snd_decreaseExponent]
  refine rounds_roundWithAccuracy s (sub_self _)
    (by exact_mod_cast fst_decreaseExponent_pos hm e _) ?_
  rw [hvalue, ← hplace]
  exact min_le_right ..

theorem rounds_normalize (n e : ℤ) (s : Sign) :
    Rounds (UnpackedFloat.normalize Format.binary64 n e s) (n * 2 ^ e) := by
  unfold UnpackedFloat.normalize
  rcases lt_trichotomy n 0 with h | rfl | h
  · have hcast : (n : ℝ) * 2 ^ e = signed .negative ((-n).toNat * 2 ^ e : ℝ) := by
      have : ((-n).toNat : ℝ) = -n := by
        exact_mod_cast Int.toNat_of_nonneg (by omega)
      rw [signed, this, neg_mul, neg_neg]
    rw [compare_lt_iff_lt.mpr h, hcast]
    exact rounds_round .negative (by omega) e
  · refine ⟨trivial, ?_⟩
    simp [unpackedValue, roundReal_of_nonneg]
  · have hcast : (n : ℝ) * 2 ^ e = signed .positive (n.toNat * 2 ^ e : ℝ) := by
      have : (n.toNat : ℝ) = n := by
        exact_mod_cast Int.toNat_of_nonneg h.le
      rw [signed, this]
    rw [compare_gt_iff_gt.mpr h, hcast]
    exact rounds_round .positive (by omega) e

/-- A double is not changed by rounding. -/
theorem Canonical.rounds {u : UnpackedFloat} (h : Canonical u) {r : ℝ}
    (hr : unpackedValue u = some (r : EReal)) : Rounds u r := by
  refine ⟨h, ?_⟩
  rw [hr]
  cases u with
  | notANumber => cases hr
  | infinity s => cases s <;> simp [unpackedValue, signed] at hr
  | zero s =>
    have : r = 0 := by simpa [unpackedValue] using hr.symm
    simp [this, roundReal_of_nonneg]
  | finite s m e hm =>
    have : r = signed s (m * 2 ^ e : ℝ) := by simpa [unpackedValue] using hr.symm
    have hv : (0 : ℝ) ≤ m * 2 ^ e := by positivity
    rw [this, roundReal_signed s hv, roundMagnitude_of_lt h.1 h.2.1]

end SatNav.Binary64
