import SatNav.Binary64.Scalar
import SatNav.Proofs.Binary64.Comparison

/-!
# Whole numbers among the doubles

A whole number becomes the double nearest to it and a double becomes the count below it.
`ceil` is exact: from `2 ^ 52` on every double is whole, and below its steps lose
nothing.
-/

namespace SatNav.Binary64

open Float.Model Float.Model.UnpackedFloat

/-! ### From whole numbers -/

theorem value_toFloat (n : UInt64) : value n.toFloat = some (round ((n.toNat : ℝ) : EReal)) := by
  change value (.ofModel (.pack (UnpackedFloat.normalize Format.binary64 (n.toNat : ℤ) 0 .positive))) = _
  rw [value_pack (rounds_normalize _ _ _)]
  simp

theorem value_toFloat_of_lt {n : ℕ} (h : n < 2 ^ 53) :
    value n.toUInt64.toFloat = some ((n : ℝ) : EReal) := by
  have hcount : n.toUInt64.toNat = n := Nat.mod_eq_of_lt (h.trans (by norm_num))
  have hround := (representable_intCast (n := n) (by simpa using h)).round
  rw [value_toFloat, hcount]
  exact_mod_cast congrArg some hround

theorem value_one : value (.ofBits 0x3FF0000000000000) = some ((1 : ℝ) : EReal) := by
  have : (Float.ofBits 0x3FF0000000000000).toModel.unpack =
      .finite .positive 4503599627370496 (-52) (by decide) := rfl
  rw [value, this, unpackedValue_finite, signed]
  norm_num [zpow_neg]

theorem value_ten : value (.ofBits 0x4024000000000000) = some ((10 : ℝ) : EReal) := by
  have : (Float.ofBits 0x4024000000000000).toModel.unpack =
      .finite .positive 5629499534213120 (-49) (by decide) := rfl
  rw [value, this, unpackedValue_finite, signed]
  norm_num [zpow_neg]

/-- A whole number is read with more bits than a double has. -/
theorem rounds_ofScientific {m : ℕ} (hm : 0 < m) {e : ℕ} (he : e ≤ 2048) :
    Rounds (UnpackedFloat.ofScientific Format.binary64 m e) (m * 10 ^ e) := by
  have hvalue : ((m <<< 53 * 10 ^ e : ℕ) : ℝ) * 2 ^ (-53 + 0 : ℤ) = m * 10 ^ e := by
    rw [Nat.shiftLeft_eq]
    push_cast
    norm_num [zpow_neg]
    ring
  have hpos : 0 < m <<< 53 * 10 ^ e := by
    rw [Nat.shiftLeft_eq]
    positivity
  have hone : (1 : ℝ) ≤ m * 10 ^ e := by
    exact_mod_cast Nat.mul_pos hm (Nat.pow_pos (by decide))
  have hplace : -53 + 0 ≤ lastPlace (m * 10 ^ e : ℝ) := by
    refine le_lastPlace (le_trans ?_ hone)
    norm_num [zpow_neg]
  have hlow : ¬ (e : ℤ) < -((2 ^ Format.binary64.exponentBits : ℤ) + m.log2) := by
    have : (0 : ℤ) ≤ 2 ^ Format.binary64.exponentBits := by positivity
    omega
  have hhigh : ¬ (e : ℤ) > 2 ^ Format.binary64.exponentBits := by
    have : (2 : ℤ) ^ Format.binary64.exponentBits = 2048 := rfl
    omega
  unfold UnpackedFloat.ofScientific
  rw [dif_neg hm.ne', if_neg hhigh, if_neg hlow, if_pos (Int.natCast_nonneg e)]
  rw [← hvalue] at hplace ⊢
  have hbits : Format.binary64.mantissaBits = 53 := rfl
  simp only [UnpackedFloat.mul, hbits, Int.toNat_natCast, Nat.cast_ofNat]
  exact rounds_roundWithAccuracy .positive (sub_self _) (by exact_mod_cast hpos) hplace

theorem rounds_ofScientific_neg_one {m : ℕ} (hm : 0 < m) :
    Rounds (UnpackedFloat.ofScientific Format.binary64 m (-1)) (m / 10) := by
  have hvalue (n : ℕ) (hn : 0 < n) :
      unpackedValue (.finite .positive n 0 hn) = some ((n : ℝ) : EReal) := by
    rw [unpackedValue_finite, signed, zpow_zero, mul_one]
  have hten := hvalue 10 (by norm_num)
  unfold UnpackedFloat.ofScientific
  rw [dif_neg hm.ne', if_neg (by decide), if_neg (by norm_num), if_neg (by decide)]
  exact_mod_cast rounds_div (hvalue m hm) hten (by norm_num)

theorem value_ofNat (n : ℕ) : value (Float.ofNat n) = some (round ((n : ℝ) : EReal)) := by
  by_cases h : n < 2 ^ 53
  · have heq : Float.ofNat n = n.toUInt64.toFloat * .ofBits 0x3FF0000000000000 := 
      dif_pos ⟨h, by norm_num⟩
    rw [heq, value_mul_coe (value_toFloat_of_lt h) value_one, mul_one]
  · have heq : Float.ofNat n = .ofModel (Float.Model.ofScientific n 0) :=
      dif_neg (fun hn => h hn.1)
    have hrounds := rounds_ofScientific (m := n) (by omega) (Nat.zero_le 2048)
    rw [pow_zero, mul_one] at hrounds
    rw [heq]
    exact value_pack hrounds

theorem value_ofInt (n : ℤ) : value (Float.ofInt n) = some (round ((n : ℝ) : EReal)) := by
  cases n with
  | ofNat n => exact value_ofNat n
  | negSucc n =>
    change value (-Float.ofNat (n + 1)) = _
    rw [value_neg, value_ofNat, Option.map_some, ← round_neg, ← EReal.coe_neg]
    push_cast
    rfl

/-- A literal with one decimal. -/
theorem value_tenths (m : ℕ) :
    value (OfScientific.ofScientific m true 1) = some (round ((m / 10 : ℝ) : EReal)) := by
  by_cases h : m < 2 ^ 53
  · have heq : (OfScientific.ofScientific m true 1 : Float) =
        m.toUInt64.toFloat / .ofBits 0x4024000000000000 := dif_pos ⟨h, by norm_num⟩
    rw [heq, value_div_coe (value_toFloat_of_lt h) value_ten (by norm_num)]
  · have heq : (OfScientific.ofScientific m true 1 : Float) =
        .ofModel (Float.Model.ofScientific m (-1)) := dif_neg (fun hm => h hm.1)
    rw [heq]
    exact value_pack (rounds_ofScientific_neg_one (by omega))

/-! ### To whole numbers -/

theorem Describes.mantissa_eq {em : ExtendedMantissa} {q : ℝ} (h : Describes em q) :
    em.mantissa = ⌊q⌋₊ := by
  rw [← Int.floor_toNat, floor_of_residual h, Int.toNat_natCast]

theorem roundToInt_eq (s : Sign) (m : ℕ) (e : ℤ) :
    roundToInt s m e = s.apply (⌊(m * 2 ^ e : ℝ)⌋₊ : ℕ) := by
  have hvalue := fst_decreaseExponent m e 0
  obtain ⟨n, hn⟩ : ∃ n : ℕ, min e 0 = -n := ⟨(-min e 0).toNat, by omega⟩
  have hquotient : ((decreaseExponent m e 0).1 : ℝ) / 2 ^ n = m * 2 ^ e := by
    rw [← hvalue, hn, zpow_neg, zpow_natCast, div_eq_mul_inv]
  have hshift : (0 - min e 0).toNat = n := by omega
  have hdescribes : Describes (.ofMantissaAndAccuracy (decreaseExponent m e 0).1 .exact)
      ((decreaseExponent m e 0).1 : ℝ) := describes_ofMantissaAndAccuracy (sub_self _)
  unfold roundToInt
  dsimp only
  rw [snd_decreaseExponent, shiftToExponent, hshift, (hdescribes.shiftRight n).mantissa_eq,
    hquotient]

theorem toNat_ofNatClamp (n : ℕ) : (UInt64.ofNatClamp n).toNat = min n (UInt64.size - 1) := by
  by_cases h : n < UInt64.size
  · rw [UInt64.toNat_ofNatClamp_of_lt h, min_eq_left (by omega)]
  · rw [UInt64.toNat_ofNatClamp_of_le (by omega), min_eq_right (by omega)]

theorem toCount_of_real {x : Float} {r : ℝ} (hx : value x = some (r : EReal)) :
    toCount x = min ⌊r⌋₊ (UInt64.size - 1) := by
  have hwhole : (x.toModel.unpack.toInt 0 (UInt64.size - 1)).toNat = ⌊r⌋₊ := by
    rcases eq_zero_or_finite hx with ⟨rfl, s, hu⟩ | ⟨s, m, e, hm, rfl, hu⟩
    · simp [hu, UnpackedFloat.toInt]
    · have hv : (0 : ℝ) < m * 2 ^ e := by positivity
      rw [hu, UnpackedFloat.toInt, roundToInt_eq]
      cases s with
      | negative =>
        rw [signed, Nat.floor_of_nonpos (neg_nonpos.mpr hv.le)]
        simp [Sign.apply]
      | positive => simp [Sign.apply, signed]
  change (UInt64.ofNatClamp _).toNat = _
  rw [toNat_ofNatClamp, hwhole]

theorem toCount_of_top {x : Float} (hx : value x = some ⊤) : toCount x = UInt64.size - 1 := by
  have hwhole : (x.toModel.unpack.toInt 0 (UInt64.size - 1)).toNat = UInt64.size - 1 := by
    rw [eq_infinity_positive hx]
    rfl
  change (UInt64.ofNatClamp _).toNat = _
  rw [toNat_ofNatClamp, hwhole, min_self]

/-! ### The least whole number above -/

theorem round_natCast {n : ℕ} (h : n < 2 ^ 53) : round ((n : ℝ) : EReal) = ((n : ℝ) : EReal) := by
  have := (representable_intCast (n := n) (by simpa using h)).round
  exact_mod_cast this

/-- A whole literal, which is read as tenths. -/
theorem value_literal {n : ℕ} (h : n < 2 ^ 53) :
    value (OfScientific.ofScientific (n * 10) true 1) = some ((n : ℝ) : EReal) := by
  have hvalue : ((n * 10 : ℕ) : ℝ) / 10 = n := by
    push_cast
    exact mul_div_cancel_right₀ _ (by norm_num)
  rw [value_tenths, hvalue, round_natCast h]

theorem value_toFloat_toUInt64 {x : Float} {r : ℝ} (hx : value x = some (r : EReal))
    (h : r < 2 ^ 52) : value x.toUInt64.toFloat = some ((⌊r⌋₊ : ℝ) : EReal) := by
  have hfloor : ⌊r⌋₊ < 2 ^ 52 := (Nat.floor_lt' (by norm_num)).mpr (by exact_mod_cast h)
  have hcount : x.toUInt64.toNat = ⌊r⌋₊ := by
    have := toCount_of_real hx
    rw [min_eq_left (hfloor.le.trans (by norm_num))] at this
    exact this
  rw [value_toFloat, hcount, round_natCast (hfloor.trans (by norm_num))]

/-- A double with a magnitude from `2 ^ 52` on has no bits after the point. -/
theorem exists_eq_intCast {x : Float} {r : ℝ} (hx : value x = some (r : EReal))
    (h : 2 ^ 52 ≤ |r|) : ∃ n : ℤ, r = n := by
  obtain ⟨n, hn⟩ := (representable_of_value hx).exists_multiple (e := 0) (by exact_mod_cast h)
  exact ⟨n, by rw [hn, zpow_zero, mul_one]⟩

theorem value_zero : value 0 = some ((0 : ℝ) : EReal) := by
  have := value_ofNat 0
  rwa [round_natCast (by norm_num), Nat.cast_zero] at this

theorem value_abs_of_real {x : Float} {r : ℝ} (hx : value x = some (r : EReal)) :
    value x.abs = some ((|r| : ℝ) : EReal) := by
  rw [value_abs hx, ← EReal.coe_neg, ← EReal.coe_strictMono.monotone.map_max]
  rfl

theorem abs_lt_large_iff {x : Float} {r : ℝ} (hx : value x = some (r : EReal)) :
    x.abs < 4503599627370496.0 ↔ |r| < 2 ^ 52 := by
  have hlarge : value 4503599627370496.0 = some ((2 ^ 52 : ℝ) : EReal) := by
    have := value_literal (n := 4503599627370496) (by norm_num)
    norm_num at this ⊢
    exact this
  rw [lt_iff_of_value (value_abs_of_real hx) hlarge, EReal.coe_lt_coe_iff]

theorem value_ceil_of_neg {x : Float} {r : ℝ} (hx : value x = some (r : EReal))
    (h : |r| < 2 ^ 52) (hr : r < 0) : value (ceil x) = some (((⌈r⌉ : ℤ) : ℝ) : EReal) := by
  have hneg : value (-x) = some ((-r : ℝ) : EReal) := by
    rw [value_neg, hx]
    rfl
  have hwhole := value_toFloat_toUInt64 hneg (neg_lt.mp (abs_lt.mp h).1)
  have hceil : ((⌈r⌉ : ℤ) : ℝ) = -(⌊-r⌋₊ : ℝ) := by
    have hfloor : ((⌊-r⌋₊ : ℕ) : ℤ) = ⌊-r⌋ := Int.natCast_floor_eq_floor (by linarith)
    rw [← Int.cast_natCast, hfloor, Int.floor_neg, Int.cast_neg, neg_neg]
  unfold ceil
  rw [if_pos ((abs_lt_large_iff hx).mpr h),
    if_pos ((lt_iff_of_value hx value_zero).mpr (by exact_mod_cast hr)), hceil]
  dsimp only
  split
  · next heq =>
    rw [beq_iff_of_value hwhole hneg, EReal.coe_eq_coe_iff] at heq
    rw [hx, heq, neg_neg]
  · rw [value_neg, hwhole]
    rfl

theorem value_ceil_of_nonneg {x : Float} {r : ℝ} (hx : value x = some (r : EReal))
    (h : |r| < 2 ^ 52) (hr : 0 ≤ r) : value (ceil x) = some (((⌈r⌉ : ℤ) : ℝ) : EReal) := by
  have hhigh := (abs_lt.mp h).2
  have hwhole := value_toFloat_toUInt64 hx hhigh
  have hfloor := Nat.floor_le hr
  unfold ceil
  rw [if_pos ((abs_lt_large_iff hx).mpr h),
    if_neg (mt (lt_iff_of_value hx value_zero).mp (by exact_mod_cast hr.not_gt))]
  dsimp only
  split
  · next hlt =>
    rw [lt_iff_of_value hwhole hx, EReal.coe_lt_coe_iff] at hlt
    have hone : value 1.0 = some ((1 : ℝ) : EReal) := by
      simpa using value_literal (n := 1) (by norm_num)
    have hceil : ⌈r⌉ = ((⌊r⌋₊ + 1 : ℕ) : ℤ) := by
      rw [Int.ceil_eq_iff]
      have := Nat.lt_floor_add_one r
      push_cast
      constructor <;> linarith
    have hbound : ⌊r⌋₊ + 1 < 2 ^ 53 := by
      have : ⌊r⌋₊ < 2 ^ 52 := (Nat.floor_lt' (by norm_num)).mpr (by exact_mod_cast hhigh)
      omega
    rw [value_add_coe hwhole hone, ← Nat.cast_add_one, round_natCast hbound, hceil,
      Int.cast_natCast]
  · next hle =>
    rw [lt_iff_of_value hwhole hx, EReal.coe_lt_coe_iff, not_lt] at hle
    have hwhole' : r = ((⌊r⌋₊ : ℤ) : ℝ) := by
      rw [Int.cast_natCast]
      exact le_antisymm hle hfloor
    rw [hx]
    conv_rhs => rw [hwhole', Int.ceil_intCast, ← hwhole']

theorem value_ceil {x : Float} {r : ℝ} (hx : value x = some (r : EReal)) :
    value (ceil x) = some (((⌈r⌉ : ℤ) : ℝ) : EReal) := by
  by_cases h : |r| < 2 ^ 52
  · rcases lt_or_ge r 0 with hr | hr
    · exact value_ceil_of_neg hx h hr
    · exact value_ceil_of_nonneg hx h hr
  · obtain ⟨n, rfl⟩ := exists_eq_intCast hx (not_lt.mp h)
    unfold ceil
    rw [if_neg (mt (abs_lt_large_iff hx).mp h), hx, Int.ceil_intCast]

/-- An infinite double, or one that is undefined, is left as it is. -/
theorem ceil_of_not_real {x : Float} (hx : ∀ r : ℝ, value x ≠ some (r : EReal)) : ceil x = x := by
  unfold ceil
  rw [if_neg]
  intro h
  obtain ⟨a, b, ha, -, hab⟩ := (lt_iff _ _).mp h
  cases hvalue : value x with
  | none =>
    rw [value_abs_none hvalue] at ha
    cases ha
  | some c =>
    have hmax := value_abs hvalue
    rw [ha, Option.some_inj] at hmax
    induction c with
    | coe r => exact hx r hvalue
    | top => simp [hmax] at hab
    | bot => simp [hmax] at hab

/-- What is positive has a positive count above it. -/
theorem toCount_ceil_pos {x : Float} {a : EReal} (hx : value x = some a) (ha : 0 < a) :
    0 < toCount (ceil x) := by
  induction a with
  | bot => exact absurd ha not_lt_bot
  | top =>
    rw [ceil_of_not_real (by simp [hx]), toCount_of_top hx]
    decide
  | coe r =>
    have hceil : 0 < ⌈r⌉ := Int.ceil_pos.mpr (by exact_mod_cast ha)
    have hfloor : 0 < ⌊((⌈r⌉ : ℤ) : ℝ)⌋₊ :=
      Nat.floor_pos.mpr (by exact_mod_cast hceil)
    rw [toCount_of_real (value_ceil hx)]
    exact lt_min hfloor (by decide)

end SatNav.Binary64
