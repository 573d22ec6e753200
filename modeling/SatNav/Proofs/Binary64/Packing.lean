import SatNav.Proofs.Binary64.Unpacked

/-!
# Doubles as bits

A canonical unpacked double survives being packed into 64 bits, unless its exponent is
too large: then it becomes infinite. Unpacking 64 bits gives a canonical double again.
-/

namespace SatNav.Binary64

open Float.Model Float.Model.UnpackedFloat

theorem toNat_append_hiddenBit (m : BitVec 52) : (1#1 ++ m).toNat = 2 ^ 52 + m.toNat := by
  rw [BitVec.toNat_append, ← Nat.shiftLeft_add_eq_or_of_lt m.isLt]
  rfl

/-- A double whose exponent is too large becomes infinite. -/
def saturate : UnpackedFloat → UnpackedFloat
  | .finite s m e hm => if 972 ≤ e then .infinity s else .finite s m e hm
  | u => u

theorem unpack_packComponents (s : Sign) (e : BitVec 11) (m : BitVec 52) :
    UnpackedFloat.unpack Format.binary64 (packComponents Format.binary64 s e m) =
      if e = -1#11 then (if m = 0#52 then .infinity s else .notANumber)
      else if e = 0#11 then
        if h : m = 0#52 then .zero s
        else .finite s m.toNat (-1074) (by simpa [BitVec.toNat_pos, BitVec.pos_iff_ne_zero])
      else .finite s (2 ^ 52 + m.toNat) (e.toNat - 1075) (by omega) := by
  have hbias : (Format.binary64.exponentBias : ℤ) + (52 : ℕ) = 1075 := rfl
  unfold UnpackedFloat.unpack
  simp only [unpackMantissa_packComponents, unpackExponent_packComponents,
    unpackSign_packComponents, Sign.ofBitVec_toBitVec, toNat_append_hiddenBit, hbias]
  by_cases hzero : e = 0#11
  · subst hzero
    rfl
  · rw [if_neg hzero, if_neg hzero]

theorem unpack_packComponents_normal (s : Sign) {m : ℕ} {e : ℤ} (hm : 0 < m)
    (hbits : m < 2 ^ 53) (hnormal : 2 ^ 52 ≤ m) (hlow : -1074 ≤ e) (hhigh : e < 972) :
    UnpackedFloat.unpack Format.binary64 (packComponents Format.binary64 s
      (BitVec.ofNat 11 (e + 1075).toNat) (BitVec.ofNat 52 m)) = .finite s m e hm := by
  have hfield : (BitVec.ofNat 11 (e + 1075).toNat).toNat = (e + 1075).toNat := by
    rw [BitVec.toNat_ofNat, Nat.mod_eq_of_lt (by omega)]
  have htrailing : (BitVec.ofNat 52 m).toNat = m - 2 ^ 52 := by
    rw [BitVec.toNat_ofNat]
    omega
  have hones : BitVec.ofNat 11 (e + 1075).toNat ≠ -1#11 := by
    intro h
    rw [h] at hfield
    change 2047 = _ at hfield
    omega
  have hzero : BitVec.ofNat 11 (e + 1075).toNat ≠ 0#11 := by
    intro h
    rw [h] at hfield
    change 0 = _ at hfield
    omega
  rw [unpack_packComponents, if_neg hones, if_neg hzero]
  simp only [hfield, htrailing, UnpackedFloat.finite.injEq, true_and]
  omega

theorem unpack_packComponents_subnormal (s : Sign) {m : ℕ} (hm : 0 < m) (hbits : m < 2 ^ 52) :
    UnpackedFloat.unpack Format.binary64 (packComponents Format.binary64 s 0#11
      (BitVec.ofNat 52 m)) = .finite s m (-1074) hm := by
  have htrailing : (BitVec.ofNat 52 m).toNat = m := by
    rw [BitVec.toNat_ofNat, Nat.mod_eq_of_lt hbits]
  have hzero : BitVec.ofNat 52 m ≠ 0#52 := by
    intro h
    rw [h] at htrailing
    change 0 = _ at htrailing
    omega
  rw [unpack_packComponents, if_neg (by decide), if_pos rfl, dif_neg hzero]
  simp only [htrailing]

theorem unpack_pack {u : UnpackedFloat} (h : Canonical u) :
    UnpackedFloat.unpack Format.binary64 (UnpackedFloat.pack Format.binary64 u) = saturate u := by
  cases u with
  | notANumber => rfl
  | infinity s => cases s <;> rfl
  | zero s => cases s <;> rfl
  | finite s m e hm =>
    obtain ⟨hbits, hlow, hshort⟩ := h
    have hbias : e + Format.binary64.exponentBias + Format.binary64.mantissaBitsWithoutImplicit =
        e + 1075 := by
      rw [add_assoc]
      rfl
    have hlog : m.log2 + 1 = Format.binary64.mantissaBits ↔ 2 ^ 52 ≤ m := by
      have := Nat.le_log2 (k := 52) hm.ne'
      have := Nat.log2_lt (k := 53) hm.ne'
      change m.log2 + 1 = 53 ↔ _
      omega
    simp only [UnpackedFloat.pack, saturate, hbias, hlog]
    by_cases hlarge : 972 ≤ e
    · rw [if_pos hlarge, if_pos (by change 2048 ≤ _; omega)]
      cases s <;> rfl
    rw [if_neg hlarge, if_neg (by change ¬2048 ≤ _; omega)]
    by_cases hnormal : 2 ^ 52 ≤ m
    · rw [if_pos hnormal]
      exact unpack_packComponents_normal s hm hbits hnormal hlow (by omega)
    · obtain rfl : e = -1074 := hshort.resolve_left hnormal
      rw [if_neg hnormal]
      exact unpack_packComponents_subnormal s hm (by omega)

/-- Sixty-four bits unpack to a canonical double that is small enough to be packed again. -/
theorem canonical_unpack (bits : BitVec 64) :
    Canonical (UnpackedFloat.unpack Format.binary64 bits) ∧
      saturate (UnpackedFloat.unpack Format.binary64 bits) =
        UnpackedFloat.unpack Format.binary64 bits := by
  rw [← @packComponents_unpackSign_unpackExponent_unpackMantissa Format.binary64 bits,
    unpack_packComponents]
  generalize @unpackExponent Format.binary64 bits = e
  generalize @unpackMantissa Format.binary64 bits = m
  have hm : m.toNat < 2 ^ 52 := m.isLt
  by_cases hones : e = -1#11
  · rw [if_pos hones]
    split <;> exact ⟨trivial, rfl⟩
  rw [if_neg hones]
  by_cases hzero : e = 0#11
  · rw [if_pos hzero]
    split
    · exact ⟨trivial, rfl⟩
    · refine ⟨⟨?_, ?_, .inr rfl⟩, ?_⟩
      · omega
      · omega
      · rfl
  · have hlow : e.toNat ≠ 0 := fun h => hzero (BitVec.eq_of_toNat_eq h)
    have hhigh : e.toNat ≠ 2047 := fun h => hones (BitVec.eq_of_toNat_eq h)
    have : e.toNat < 2048 := e.isLt
    rw [if_neg hzero]
    refine ⟨⟨?_, ?_, ?_⟩, ?_⟩
    · omega
    · omega
    · omega
    · rw [saturate, if_neg (by omega)]

end SatNav.Binary64
