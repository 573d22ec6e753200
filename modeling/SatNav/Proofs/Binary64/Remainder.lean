import SatNav.Proofs.Binary64.WholeNumbers

/-!
# The remainder of two doubles

`parts` reads from the bits of a double what the arithmetic of doubles unpacks them to, so
`remainder`, which computes on the parts, is about the same numbers. What is left of one
double after whole multiples of another is again a double: it is a multiple of the smaller of
their powers of two and has no more bits than they have. So `remainder` is exact.
-/

namespace SatNav.Binary64

open Float.Model Float.Model.UnpackedFloat

/-! ### Fields -/

theorem toNat_unpackExponent (bits : UInt64) :
    (@unpackExponent Format.binary64 bits.toBitVec).toNat =
      (bits >>> 52).toNat % 2048 := by
  unfold unpackExponent
  rw [BitVec.toNat_cast, BitVec.extractLsb_toNat, UInt64.toNat_shiftRight]
  rfl

theorem toNat_unpackMantissa (bits : UInt64) :
    (@unpackMantissa Format.binary64 bits.toBitVec).toNat = bits.toNat % hiddenBit := by
  unfold unpackMantissa
  rw [BitVec.toNat_cast, BitVec.extractLsb_toNat]
  rfl

theorem toNat_unpackSign (bits : UInt64) :
    (@unpackSign Format.binary64 bits.toBitVec).toNat = (bits >>> 63).toNat := by
  unfold unpackSign
  rw [BitVec.toNat_cast, BitVec.extractLsb_toNat, UInt64.toNat_shiftRight]
  have := bits.toNat_lt
  change bits.toNat >>> 63 % 2 = bits.toNat >>> 63
  omega

/-! ### Parts -/

def isNegative : Sign → Bool
  | .negative => true
  | .positive => false

theorem isNegative_unpackSign (bits : UInt64) :
    isNegative (Sign.ofBitVec (@unpackSign Format.binary64 bits.toBitVec)) =
      (bits >>> 63 == 1) := by
  have hsign := toNat_unpackSign bits
  have hlt : (@unpackSign Format.binary64 bits.toBitVec).toNat < 2 := BitVec.isLt _
  rw [Bool.eq_iff_iff, beq_iff_eq, ← UInt64.toNat_inj, ← hsign]
  unfold Sign.ofBitVec
  split
  · next h => simp [h, isNegative]
  · next h =>
    have : (@unpackSign Format.binary64 bits.toBitVec).toNat ≠ 0 :=
      fun hzero => h (BitVec.eq_of_toNat_eq hzero)
    simp only [isNegative, true_iff]
    change _ = 1
    omega

/-- The parts of an unpacked double. Zero has those of a subnormal number. -/
def partsOf : UnpackedFloat → Parts
  | .notANumber => .undefined
  | .infinity s => .infinite (isNegative s)
  | .zero s => .finite (isNegative s) 0 (-1074)
  | .finite s m e _ => .finite (isNegative s) m e

theorem parts_eq (x : Float) : parts x = partsOf x.toModel.unpack := by
  have hunpack : x.toModel.unpack = UnpackedFloat.unpack Format.binary64 x.toBits.toBitVec := rfl
  rw [hunpack, ← @packComponents_unpackSign_unpackExponent_unpackMantissa Format.binary64
    x.toBits.toBitVec, unpack_packComponents]
  have hexponent : biasedExponent x = (@unpackExponent Format.binary64 x.toBits.toBitVec).toNat :=
    (toNat_unpackExponent x.toBits).symm
  have htrailing :
      trailingSignificand x = (@unpackMantissa Format.binary64 x.toBits.toBitVec).toNat :=
    (toNat_unpackMantissa x.toBits).symm
  unfold parts
  rw [signBit, ← isNegative_unpackSign, hexponent, htrailing]
  generalize @unpackExponent Format.binary64 x.toBits.toBitVec = e
  generalize @unpackMantissa Format.binary64 x.toBits.toBitVec = m
  have hones : e.toNat = 2047 ↔ e = -1#11 := (BitVec.toNat_inj (y := -1#11))
  have hzero : e.toNat = 0 ↔ e = 0#11 := (BitVec.toNat_inj (y := 0#11))
  have hmzero : m.toNat = 0 ↔ m = 0#52 := (BitVec.toNat_inj (y := 0#52))
  dsimp only
  simp only [hones, hzero, hmzero]
  split
  · split <;> rfl
  · split
    · split
      · next h => rw [h]; rfl
      · rfl
    · rw [hiddenBit, Nat.add_comm]
      rfl

theorem exists_parts_of_value {x : Float} {a : ℝ} (hx : value x = some (a : EReal)) :
    ∃ (s : Sign) (m : ℕ) (e : ℤ), parts x = .finite (isNegative s) m e ∧
      m < 2 ^ 53 ∧ (-1074 ≤ e ∧ e < 972) ∧ a = signed s (m * 2 ^ e : ℝ) := by
  rw [parts_eq]
  have hcanonical := canonical_toModel x
  have hsaturate := saturate_toModel x
  rcases eq_zero_or_finite hx with ⟨rfl, s, hu⟩ | ⟨s, m, e, hm, rfl, hu⟩
  · refine ⟨s, 0, -1074, by rw [hu]; rfl, by norm_num, ⟨by norm_num, by norm_num⟩, ?_⟩
    rw [Nat.cast_zero, zero_mul, signed_zero]
  · rw [hu] at hcanonical hsaturate ⊢
    refine ⟨s, m, e, rfl, hcanonical.1, ⟨hcanonical.2.1, ?_⟩, rfl⟩
    by_contra hlarge
    rw [saturate, if_pos (by omega)] at hsaturate
    cases hsaturate

/-! ### From parts to doubles -/

theorem value_ofBits (bits : UInt64) :
    value (.ofBits bits) = unpackedValue (UnpackedFloat.unpack Format.binary64 bits.toBitVec) := by
  obtain ⟨hcanonical, hsaturate⟩ := canonical_unpack bits.toBitVec
  change unpackedValue (Float.Model.pack (UnpackedFloat.unpack Format.binary64
    bits.toBitVec)).unpack = _
  rw [unpack_model_pack hcanonical, hsaturate]

theorem toNat_packComponents_positive (e : BitVec 11) (m : BitVec 52) :
    BitVec.toNat (packComponents Format.binary64 .positive e m) = e.toNat <<< 52 ||| m.toNat := by
  change ((0#1 ++ e) ++ m).toNat = _
  rw [BitVec.toNat_append, BitVec.toNat_append]
  simp

/-- A normal power of two has nothing but its exponent. -/
theorem value_powerOfTwo_of_le {e : ℤ} (hlow : -1022 ≤ e) (hhigh : e < 1024) :
    value (powerOfTwo e) = some ((2 ^ e : ℝ) : EReal) := by
  have hfield : (BitVec.ofNat 11 (e + 1023).toNat).toNat = (e + 1023).toNat :=
    Nat.mod_eq_of_lt (by omega)
  have hbits : ((e + 1023).toNat.toUInt64 <<< 52).toBitVec =
      packComponents Format.binary64 .positive (BitVec.ofNat 11 (e + 1023).toNat) 0#52 := by
    refine BitVec.eq_of_toNat_eq ?_
    rw [toNat_packComponents_positive, hfield]
    change ((e + 1023).toNat % 2 ^ 64) <<< 52 % 2 ^ 64 = (e + 1023).toNat <<< 52 ||| 0
    rw [Nat.or_zero, Nat.shiftLeft_eq, Nat.shiftLeft_eq]
    omega
  have hones : BitVec.ofNat 11 (e + 1023).toNat ≠ -1#11 := by
    intro h
    have : (e + 1023).toNat = 2047 := by rw [← hfield, h]; rfl
    omega
  have hzero : BitVec.ofNat 11 (e + 1023).toNat ≠ 0#11 := by
    intro h
    have : (e + 1023).toNat = 0 := by rw [← hfield, h]; rfl
    omega
  rw [powerOfTwo, if_pos hlow, value_ofBits, hbits, unpack_packComponents, if_neg hones,
    if_neg hzero, unpackedValue_finite, hfield, signed]
  have hsplit : (((e + 1023).toNat : ℤ) - 1075) = e - 52 := by omega
  refine congrArg (fun r : ℝ => some (r : EReal)) ?_
  rw [hsplit, zpow_sub₀ (by norm_num)]
  norm_num
  ring

/-- A subnormal power of two is one bit of the significand. -/
theorem value_powerOfTwo_of_lt {e : ℤ} (hlow : -1074 ≤ e) (hhigh : e < -1022) :
    value (powerOfTwo e) = some ((2 ^ e : ℝ) : EReal) := by
  obtain ⟨k, hk, rfl⟩ : ∃ k : ℕ, k < 52 ∧ e = k - 1074 := ⟨(e + 1074).toNat, by omega, by omega⟩
  have hshift : ((k : ℤ) - 1074 + 1074).toNat = k := by omega
  have hpow : 2 ^ k < 2 ^ 52 := Nat.pow_lt_pow_right (by norm_num) hk
  have hbits : ((1 : UInt64) <<< k.toUInt64).toBitVec =
      packComponents Format.binary64 .positive 0#11 (BitVec.ofNat 52 (2 ^ k)) := by
    refine BitVec.eq_of_toNat_eq ?_
    have hfield : (BitVec.ofNat 52 (2 ^ k)).toNat = 2 ^ k := Nat.mod_eq_of_lt hpow
    rw [toNat_packComponents_positive, hfield]
    change 1 <<< (k % 2 ^ 64 % 64) % 2 ^ 64 = 0 ||| 2 ^ k
    have hamount : k % 2 ^ 64 % 64 = k := by omega
    rw [Nat.zero_or, hamount, Nat.one_shiftLeft, Nat.mod_eq_of_lt (hpow.trans (by norm_num))]
  rw [powerOfTwo, if_neg (by omega), hshift, value_ofBits, hbits,
    unpack_packComponents_subnormal _ (by positivity) hpow, unpackedValue_finite, signed]
  refine congrArg (fun r : ℝ => some (r : EReal)) ?_
  rw [Nat.cast_pow, sub_eq_add_neg, zpow_add₀ (by norm_num), zpow_natCast, Nat.cast_two]

theorem value_powerOfTwo {e : ℤ} (hlow : -1074 ≤ e) (hhigh : e < 1024) :
    value (powerOfTwo e) = some ((2 ^ e : ℝ) : EReal) := by
  rcases le_or_gt (-1022) e with hnormal | hsubnormal
  · exact value_powerOfTwo_of_le hnormal hhigh
  · exact value_powerOfTwo_of_lt hlow hsubnormal

theorem value_ofParts (s : Sign) {m : ℕ} {e : ℤ} (hm : m < 2 ^ 53) (hlow : -1074 ≤ e)
    (hhigh : e < 1024) (hlimit : (m * 2 ^ e : ℝ) < limit) :
    value (ofParts (isNegative s) m e) = some ((signed s (m * 2 ^ e : ℝ) : ℝ) : EReal) := by
  have hnonneg : (0 : ℝ) ≤ m * 2 ^ e := by positivity
  have hrepresentable : Representable (m * 2 ^ e) :=
    ⟨by rwa [abs_of_nonneg hnonneg], m, e, hm, hlow, abs_of_nonneg hnonneg⟩
  have hcount : value (Float.ofNat m) = some ((m : ℝ) : EReal) := by
    rw [value_ofNat, round_natCast hm]
  have hproduct : value (Float.ofNat m * powerOfTwo e) = some ((m * 2 ^ e : ℝ) : EReal) := by
    rw [value_mul_coe hcount (value_powerOfTwo hlow hhigh), hrepresentable.round]
  cases s with
  | negative =>
    change value (-(Float.ofNat m * powerOfTwo e)) = _
    rw [value_neg, hproduct]
    rfl
  | positive => exact hproduct

/-! ### Remainders -/

/-- What `exactRemainder` leaves is less than the divisor, is no longer in bits than both numbers
are, and misses the dividend by a multiple of the divisor. -/
theorem exactRemainder_spec {m n : ℕ} (e f : ℤ) (hm : m < 2 ^ 53) (hn : n < 2 ^ 53) (hpos : 0 < n) :
    (exactRemainder m e n f).1 < 2 ^ 53 ∧
      (exactRemainder m e n f).2 = min e f ∧
      ((exactRemainder m e n f).1 * 2 ^ (exactRemainder m e n f).2 : ℝ) < n * 2 ^ f ∧
      ∃ k : ℕ, (m * 2 ^ e : ℝ) =
        k * (n * 2 ^ f) + (exactRemainder m e n f).1 * 2 ^ (exactRemainder m e n f).2 := by
  unfold exactRemainder
  split
  · next hle =>
    obtain ⟨j, rfl⟩ : ∃ j : ℕ, e = f + j := ⟨(e - f).toNat, by omega⟩
    have hshift : (f + (j : ℤ) - f).toNat = j := by omega
    dsimp only
    rw [hshift]
    have hlt : m * Nat.pow 2 j % n < n := Nat.mod_lt _ hpos
    have hdiv : (m * 2 ^ j : ℝ) =
        ((m * Nat.pow 2 j / n : ℕ) : ℝ) * n + ((m * Nat.pow 2 j % n : ℕ) : ℝ) := by
      exact_mod_cast (Nat.div_add_mod' (m * Nat.pow 2 j) n).symm
    refine ⟨hlt.trans hn, by omega, ?_, m * Nat.pow 2 j / n, ?_⟩
    · gcongr
    · rw [zpow_add₀ (by norm_num), zpow_natCast]
      linear_combination (2 : ℝ) ^ f * hdiv
  · next hgt =>
    obtain ⟨j, rfl⟩ : ∃ j : ℕ, f = e + j := ⟨(f - e).toNat, by omega⟩
    have hshift : (e + (j : ℤ) - e).toNat = j := by omega
    dsimp only
    rw [hshift]
    have hlt : m % (n * Nat.pow 2 j) < n * Nat.pow 2 j :=
      Nat.mod_lt _ (Nat.mul_pos hpos (Nat.pow_pos (by norm_num)))
    have hdiv : (m : ℝ) = ((m / (n * Nat.pow 2 j) : ℕ) : ℝ) * (n * 2 ^ j) +
        ((m % (n * Nat.pow 2 j) : ℕ) : ℝ) := by
      exact_mod_cast (Nat.div_add_mod' m (n * Nat.pow 2 j)).symm
    refine ⟨(Nat.mod_le _ _).trans_lt hm, by omega, ?_, m / (n * Nat.pow 2 j), ?_⟩
    · rw [zpow_add₀ (by norm_num), zpow_natCast]
      have hcast : ((m % (n * Nat.pow 2 j) : ℕ) : ℝ) < n * 2 ^ j := by exact_mod_cast hlt
      calc ((m % (n * Nat.pow 2 j) : ℕ) : ℝ) * 2 ^ e < n * 2 ^ j * 2 ^ e := by gcongr
        _ = n * (2 ^ e * 2 ^ j) := by ring
    · rw [zpow_add₀ (by norm_num), zpow_natCast]
      linear_combination (2 : ℝ) ^ e * hdiv

theorem abs_signed (s : Sign) {v : ℝ} (hv : 0 ≤ v) : |signed s v| = v := by
  cases s with
  | negative => rw [signed, abs_neg, abs_of_nonneg hv]
  | positive => rw [signed, abs_of_nonneg hv]

/-- The remainder of two finite doubles is exact. -/
theorem exists_value_remainder {x y : Float} {a b : ℝ} (hx : value x = some (a : EReal))
    (hy : value y = some (b : EReal)) (hb : b ≠ 0) :
    ∃ c : ℝ, value (remainder x y) = some (c : EReal) ∧ |c| < |b| ∧ ∃ k : ℤ, a = k * b + c := by
  obtain ⟨s, m, e, hpx, hm, he, rfl⟩ := exists_parts_of_value hx
  obtain ⟨t, n, f, hpy, hn, hf, rfl⟩ := exists_parts_of_value hy
  have hpos : 0 < n := by
    rcases Nat.eq_zero_or_pos n with rfl | hpos
    · rw [Nat.cast_zero, zero_mul, signed_zero] at hb
      exact absurd rfl hb
    · exact hpos
  obtain ⟨hbits, hexponent, hlt, k, hk⟩ := exactRemainder_spec e f hm hn hpos
  have hremainder : remainder x y =
      ofParts (isNegative s) (exactRemainder m e n f).1 (exactRemainder m e n f).2 := by
    rw [remainder, hpx, hpy]
    exact if_neg hpos.ne'
  have hdivisor : |signed t (n * 2 ^ f : ℝ)| = n * 2 ^ f := abs_signed t (by positivity)
  have hlimit := hlt.trans (hdivisor ▸ (representable_of_value hy).1)
  refine ⟨_, hremainder ▸ value_ofParts s hbits (by omega) (by omega) hlimit, ?_, ?_⟩
  · rw [hdivisor, abs_signed s (by positivity)]
    exact hlt
  · rw [hk]
    -- the signs of the two numbers decide that of the multiple
    cases s <;> cases t <;> simp only [signed]
    · exact ⟨k, by push_cast; ring⟩
    · exact ⟨-k, by push_cast; ring⟩
    · exact ⟨-k, by push_cast; ring⟩
    · exact ⟨k, by push_cast; ring⟩

theorem value_remainder_infinite {x : Float} (hx : ∀ r : ℝ, value x ≠ some (r : EReal))
    (y : Float) : value (remainder x y) = none := by
  have hundefined : value (0.0 / 0.0) = none := rfl
  rw [value] at hx
  rw [remainder, parts_eq x]
  cases h : x.toModel.unpack with
  | notANumber => exact hundefined
  | infinity s =>
    cases parts y <;> exact hundefined
  | zero s => exact absurd (by rw [h]; rfl) (hx 0)
  | finite s m e hm => exact absurd (by rw [h]; rfl) (hx _)

end SatNav.Binary64
