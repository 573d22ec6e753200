import SatNav.Proofs.Binary64.Unpacked

/-!
# Arithmetic on unpacked doubles

Each operation gives the result of the reals, rounded once. Where an operand is infinite
there is nothing to round.
-/

namespace SatNav.Binary64

open Float.Model Float.Model.UnpackedFloat

/-! ### Signs -/

theorem signed_mul_signed (s t : Sign) (a b : ℝ) :
    signed (s * t) (a * b) = signed s a * signed t b := by
  match s, t with
  | .negative, .negative => exact (neg_mul_neg a b).symm
  | .negative, .positive => exact (neg_mul a b).symm
  | .positive, .negative => exact (mul_neg a b).symm
  | .positive, .positive => rfl

theorem signed_div_signed (s t : Sign) (a b : ℝ) :
    signed (s / t) (a / b) = signed s a / signed t b := by
  match s, t with
  | .negative, .negative => exact (neg_div_neg_eq a b).symm
  | .negative, .positive => exact (neg_div b a).symm
  | .positive, .negative => exact (div_neg a).symm
  | .positive, .positive => rfl

theorem signed_neg {α : Type} [InvolutiveNeg α] (s : Sign) (a : α) :
    signed (-s) a = -signed s a := by
  cases s
  · exact (neg_neg a).symm
  · rfl

@[simp] theorem unpackedValue_neg (u : UnpackedFloat) :
    unpackedValue u.neg = (unpackedValue u).map (-·) := by
  cases u with
  | notANumber => rfl
  | infinity s => simp [UnpackedFloat.neg, unpackedValue, signed_neg]
  | zero s => simp [UnpackedFloat.neg, unpackedValue]
  | finite s m e hm => simp [UnpackedFloat.neg, unpackedValue, signed_neg]

theorem Canonical.neg {u : UnpackedFloat} (h : Canonical u) : Canonical u.neg := by
  cases u with
  | finite s m e hm => exact h
  | _ => trivial

/-- Subtraction is the addition of the opposite, in every case. -/
theorem sub_eq_add_opposite (u w : UnpackedFloat) :
    UnpackedFloat.sub Format.binary64 u w = UnpackedFloat.add Format.binary64 u w.neg := by
  have happly (s : Sign) (n : ℤ) : (-s).apply n = -(s.apply n) := by
    cases s
    · exact (neg_neg n).symm
    · rfl
  cases u <;> cases w <;>
    simp [UnpackedFloat.sub, UnpackedFloat.add, UnpackedFloat.neg, happly, sub_eq_add_neg]

/-! ### Sums -/

/-- The forms of an unpacked double that stands for a real number. -/
theorem eq_zero_or_finite {u : UnpackedFloat} {a : ℝ} (h : unpackedValue u = some (a : EReal)) :
    (a = 0 ∧ ∃ s, u = .zero s) ∨
      ∃ (s : Sign) (m : ℕ) (e : ℤ) (hm : 0 < m),
        a = signed s (m * 2 ^ e : ℝ) ∧ u = .finite s m e hm := by
  cases u with
  | notANumber => cases h
  | infinity s => cases s <;> simp [unpackedValue, signed] at h
  | zero s => exact .inl ⟨by simpa [unpackedValue] using h.symm, s, rfl⟩
  | finite s m e hm =>
    exact .inr ⟨s, m, e, hm, by simpa [unpackedValue] using h.symm, rfl⟩

/-- A significand brought down to a smaller exponent. -/
theorem apply_decreaseExponent (s : Sign) (m : ℕ) {e t : ℤ} (h : t ≤ e) :
    ((s.apply (decreaseExponent m e t).1 : ℤ) : ℝ) * 2 ^ t = signed s (m * 2 ^ e : ℝ) := by
  have hvalue := fst_decreaseExponent m e t
  rw [min_eq_right h] at hvalue
  rw [signed_apply, ← signed_mul, hvalue]

theorem rounds_zero (s : Sign) : Rounds (.zero s) 0 :=
  Canonical.rounds (u := .zero s) trivial rfl

theorem rounds_add {u w : UnpackedFloat} (hu : Canonical u) (hw : Canonical w) {a b : ℝ}
    (ha : unpackedValue u = some (a : EReal)) (hb : unpackedValue w = some (b : EReal)) :
    Rounds (UnpackedFloat.add Format.binary64 u w) (a + b) := by
  rcases eq_zero_or_finite ha with ⟨rfl, s, rfl⟩ | ⟨s, m, e, hm, rfl, rfl⟩
  · rw [zero_add]
    rcases eq_zero_or_finite hb with ⟨rfl, t, rfl⟩ | ⟨t, n, f, hn, rfl, rfl⟩
    · have hzero : ∃ r, UnpackedFloat.add Format.binary64 (.zero s) (.zero t) = .zero r := by
        cases s <;> cases t <;> exact ⟨_, rfl⟩
      obtain ⟨r, hr⟩ := hzero
      rw [hr]
      exact rounds_zero _
    · exact hw.rounds hb
  · rcases eq_zero_or_finite hb with ⟨rfl, t, rfl⟩ | ⟨t, n, f, hn, rfl, rfl⟩
    · rw [add_zero]
      exact hu.rounds ha
    · rw [← apply_decreaseExponent s m (min_le_left e f),
        ← apply_decreaseExponent t n (min_le_right e f), ← add_mul, ← Int.cast_add]
      exact rounds_normalize _ _ _

/-! ### Products and quotients -/

/-- The product of two significands has all bits that the result needs, unless it is subnormal. -/
theorem add_le_lastPlace {s t : Sign} {m n : ℕ} {e f : ℤ} {hm : 0 < m} {hn : 0 < n}
    (hu : Canonical (.finite s m e hm)) (hw : Canonical (.finite t n f hn)) :
    e + f ≤ lastPlace ((m * n : ℕ) * 2 ^ (e + f)) := by
  by_cases hbits : 2 ^ 52 ≤ m * n
  · refine le_lastPlace ?_
    rw [zpow_add₀ (by norm_num), mul_comm]
    exact mul_le_mul_of_nonneg_right (by exact_mod_cast hbits) (zpow_nonneg (by norm_num) _)
  · have hle : m ≤ m * n := Nat.le_mul_of_pos_right m hn
    have hle' : n ≤ m * n := Nat.le_mul_of_pos_left n hm
    have he := hu.2.2.resolve_left (by omega)
    have hf := hw.2.2.resolve_left (by omega)
    have := neg_le_lastPlace ((m * n : ℕ) * 2 ^ (e + f))
    omega

theorem rounds_mul {u w : UnpackedFloat} (hu : Canonical u) (hw : Canonical w) {a b : ℝ}
    (ha : unpackedValue u = some (a : EReal)) (hb : unpackedValue w = some (b : EReal)) :
    Rounds (UnpackedFloat.mul Format.binary64 u w) (a * b) := by
  rcases eq_zero_or_finite ha with ⟨rfl, s, rfl⟩ | ⟨s, m, e, hm, rfl, rfl⟩
  · rw [zero_mul]
    rcases eq_zero_or_finite hb with ⟨rfl, t, rfl⟩ | ⟨t, n, f, hn, rfl, rfl⟩ <;>
      exact rounds_zero _
  · rcases eq_zero_or_finite hb with ⟨rfl, t, rfl⟩ | ⟨t, n, f, hn, rfl, rfl⟩
    · rw [mul_zero]
      exact rounds_zero _
    · have hvalue : signed s (m * 2 ^ e : ℝ) * signed t (n * 2 ^ f : ℝ) =
          signed (s * t) ((m * n : ℕ) * 2 ^ (e + f) : ℝ) := by
        rw [← signed_mul_signed, zpow_add₀ (by norm_num)]
        push_cast
        ring_nf
      rw [hvalue]
      exact rounds_roundWithAccuracy (s * t) (sub_self _)
        (by exact_mod_cast Nat.mul_pos hm hn) (add_le_lastPlace hu hw)

theorem residual_accuracyOfFraction (m : ℕ) {n : ℕ} (hn : 0 < n) :
    Residual (accuracyOfFraction (m % n) n) ((m / n : ℝ) - ((m / n : ℕ) : ℝ)) := by
  have hn' : (0 : ℝ) < n := by exact_mod_cast hn
  have hremainder : (m / n : ℝ) - ((m / n : ℕ) : ℝ) = ((m % n : ℕ) : ℝ) / n := by
    have : (m : ℝ) = n * ((m / n : ℕ) : ℝ) + ((m % n : ℕ) : ℝ) := by
      exact_mod_cast (Nat.div_add_mod m n).symm
    rw [eq_div_iff hn'.ne', sub_mul, div_mul_cancel₀ _ hn'.ne']
    linarith
  have hlt : ((m % n : ℕ) : ℝ) < n := by exact_mod_cast Nat.mod_lt m hn
  rw [hremainder, accuracyOfFraction]
  split
  · next hzero =>
    simp [hzero, Residual]
  · next hpos =>
    have hpos' : (0 : ℝ) < (m % n : ℕ) := by exact_mod_cast Nat.pos_of_ne_zero hpos
    rcases lt_trichotomy (2 * (m % n)) n with h | h | h
    · have h' : 2 * ((m % n : ℕ) : ℝ) < n := by exact_mod_cast h
      rw [compare_lt_iff_lt.mpr h]
      exact ⟨div_pos hpos' hn', by rw [← add_div, div_lt_one hn']; linarith⟩
    · have h' : 2 * ((m % n : ℕ) : ℝ) = n := by exact_mod_cast h
      rw [compare_eq_iff_eq.mpr h]
      change _ + _ = _
      rw [← add_div, div_eq_one_iff_eq hn'.ne']
      linarith
    · have h' : (n : ℝ) < 2 * (m % n : ℕ) := by exact_mod_cast h
      rw [compare_gt_iff_gt.mpr h]
      exact ⟨by rw [← add_div, one_lt_div hn']; linarith, (div_lt_one hn').mpr hlt⟩

/-- The exponent that a quotient is computed with is small enough for all its bits. -/
theorem targetExponent_sub_le_lastPlace {m n : ℕ} (hm : 0 < m) (hn : 0 < n) (e f : ℤ) :
    Format.binary64.targetExponent (totalExponent m e - totalExponent n f) ≤
      lastPlace (m * 2 ^ e / (n * 2 ^ f)) := by
  have hn' : (0 : ℝ) < n := by exact_mod_cast hn
  have hlow : (2 : ℝ) ^ ((m.log2 : ℤ) + e - n.log2 - f - 1) ≤ m * 2 ^ e / (n * 2 ^ f) := by
    rw [le_div_iff₀ (mul_pos hn' (zpow_pos (by norm_num) _))]
    calc (2 : ℝ) ^ ((m.log2 : ℤ) + e - n.log2 - f - 1) * (n * 2 ^ f)
        ≤ 2 ^ ((m.log2 : ℤ) + e - n.log2 - f - 1) * (2 ^ (n.log2 + 1 : ℤ) * 2 ^ f) := by
          gcongr
          linarith [lt_two_pow_log2 n]
      _ = 2 ^ (m.log2 : ℤ) * 2 ^ e := by
          rw [← zpow_add₀ (by norm_num), ← zpow_add₀ (by norm_num), ← zpow_add₀ (by norm_num)]
          congr 1
          omega
      _ ≤ m * 2 ^ e :=
          mul_le_mul_of_nonneg_right (two_pow_log2_le hm) (zpow_nonneg (by norm_num) _)
  have htarget : Format.binary64.targetExponent (totalExponent m e - totalExponent n f) =
      max ((m.log2 : ℤ) + e - n.log2 - f - 1 - 52) (-1074) := by
    simp only [Format.targetExponent, totalExponent, Format.minExponent, Format.mantissaBits]
    norm_num
    omega
  rw [htarget]
  refine max_le (le_lastPlace ?_) (neg_le_lastPlace _)
  rwa [sub_add_cancel]

theorem rounds_div {u w : UnpackedFloat} {a b : ℝ}
    (ha : unpackedValue u = some (a : EReal)) (hb : unpackedValue w = some (b : EReal))
    (hne : b ≠ 0) : Rounds (UnpackedFloat.div Format.binary64 u w) (a / b) := by
  rcases eq_zero_or_finite hb with ⟨rfl, t, rfl⟩ | ⟨t, n, f, hn, rfl, rfl⟩
  · exact absurd rfl hne
  rcases eq_zero_or_finite ha with ⟨rfl, s, rfl⟩ | ⟨s, m, e, hm, rfl, rfl⟩
  · rw [zero_div]
    exact rounds_zero _
  · have hbound := targetExponent_sub_le_lastPlace hm hn e f
    rw [← signed_div_signed]
    simp only [UnpackedFloat.div, divCore]
    generalize Format.binary64.targetExponent (totalExponent m e - totalExponent n f) = target
      at hbound ⊢
    have hvalue : (((m <<< (e - f - min (e - f) target).toNat : ℕ) : ℝ) / n) *
        2 ^ min (e - f) target = m * 2 ^ e / (n * 2 ^ f) := by
      have := fst_decreaseExponent m (e - f) (min (e - f) target)
      rw [min_eq_right (min_le_left ..), zpow_sub₀ (by norm_num)] at this
      rw [div_mul_eq_mul_div, show ((m <<< (e - f - min (e - f) target).toNat : ℕ) : ℝ) *
        2 ^ min (e - f) target = _ from this]
      field_simp
    have hpos := fst_decreaseExponent_pos hm (e - f) (min (e - f) target)
    rw [← hvalue] at hbound ⊢
    refine rounds_roundWithAccuracy (s / t) (residual_accuracyOfFraction _ hn) ?_
      ((min_le_right ..).trans hbound)
    exact div_pos (by exact_mod_cast hpos) (by exact_mod_cast hn)

end SatNav.Binary64
