import SatNav.Proofs.Binary64.Operations
import SatNav.Proofs.Binary64.Packing

/-!
# The values of doubles

`value` is the extended real number that a double stands for, none for a NaN. The
arithmetic of doubles is that of their values, rounded once, and their order is that of
the values, where a NaN is in no relation to anything.
-/

namespace SatNav.Binary64

open Float.Model Float.Model.UnpackedFloat

/-- The number that a double stands for. -/
noncomputable def value (x : Float) : Option EReal := unpackedValue x.toModel.unpack

theorem canonical_toModel (x : Float) : Canonical x.toModel.unpack :=
  (canonical_unpack x.toModel.toBits.toBitVec).1

theorem saturate_toModel (x : Float) : saturate x.toModel.unpack = x.toModel.unpack :=
  (canonical_unpack x.toModel.toBits.toBitVec).2

theorem unpack_model_pack {u : UnpackedFloat} (h : Canonical u) :
    (Float.Model.pack u).unpack = saturate u := unpack_pack h

/-! ### Rounded results -/

theorem overflow_signed (s : Sign) (v : ℝ) : overflow (signed s v) = signed s (overflow v) := by
  cases s with
  | negative => exact overflow_neg v
  | positive => rfl

/-- An exponent is too large just where the number is. -/
theorem unpackedValue_saturate {u : UnpackedFloat} (h : Canonical u) {r : ℝ}
    (hr : unpackedValue u = some (r : EReal)) :
    unpackedValue (saturate u) = some (overflow r) := by
  rcases eq_zero_or_finite hr with ⟨rfl, s, rfl⟩ | ⟨s, m, e, hm, rfl, rfl⟩
  · rw [overflow_of_abs_lt (by simpa using limit_pos)]
    rfl
  · obtain ⟨hbits, hlow, hshort⟩ := h
    rw [overflow_signed, saturate]
    by_cases hlarge : 972 ≤ e
    · have hfull : (2 : ℝ) ^ 52 ≤ m := by
        exact_mod_cast hshort.resolve_right (by omega)
      have hlimit : limit ≤ m * 2 ^ e :=
        calc limit = 2 ^ 52 * 2 ^ (972 : ℤ) := by
              rw [limit, ← zpow_natCast, ← zpow_add₀ (by norm_num)]
              rfl
          _ ≤ m * 2 ^ e := by
              gcongr
              norm_num
      rw [if_pos hlarge, overflow, if_pos hlimit]
      rfl
    · have hlimit : m * 2 ^ e < limit :=
        calc (m : ℝ) * 2 ^ e < 2 ^ 53 * 2 ^ e := by
              gcongr
              exact_mod_cast hbits
          _ ≤ 2 ^ 53 * 2 ^ (971 : ℤ) := by
              gcongr
              · norm_num
              · omega
          _ = limit := by
              rw [limit, ← zpow_natCast, ← zpow_add₀ (by norm_num)]
              rfl
      rw [if_neg hlarge, overflow_of_abs_lt (by rwa [abs_of_nonneg (by positivity)])]
      cases s <;> rfl

/-- A finite double is a number of binary64. -/
theorem representable_of_value {x : Float} {r : ℝ} (hx : value x = some (r : EReal)) :
    Representable r := by
  have hcanonical := canonical_toModel x
  have hsaturate := unpackedValue_saturate hcanonical hx
  rw [saturate_toModel] at hsaturate
  have hlimit : overflow r = r := Option.some.inj (hsaturate.symm.trans hx)
  refine ⟨abs_lt_of_overflow hlimit, ?_⟩
  rcases eq_zero_or_finite hx with ⟨rfl, -⟩ | ⟨s, m, e, hm, rfl, hu⟩
  · exact ⟨0, 0, by norm_num, by norm_num, by simp⟩
  · rw [hu] at hcanonical
    obtain ⟨hbits, hlow, -⟩ := hcanonical
    have hv : (0 : ℝ) < m * 2 ^ e := by positivity
    refine ⟨m, e, hbits, hlow, ?_⟩
    cases s <;> simp only [signed, abs_neg, abs_of_pos hv]

theorem value_pack {u : UnpackedFloat} {r : ℝ} (h : Rounds u r) :
    value (.ofModel (.pack u)) = some (round r) := by
  rw [value, unpack_model_pack h.1, unpackedValue_saturate h.1 h.2, round_coe]

variable {x y : Float} {a b : ℝ}

theorem value_add_coe (hx : value x = some (a : EReal)) (hy : value y = some (b : EReal)) :
    value (x + y) = some (round ((a + b : ℝ) : EReal)) :=
  value_pack (rounds_add (canonical_toModel x) (canonical_toModel y) hx hy)

theorem value_mul_coe (hx : value x = some (a : EReal)) (hy : value y = some (b : EReal)) :
    value (x * y) = some (round ((a * b : ℝ) : EReal)) :=
  value_pack (rounds_mul (canonical_toModel x) (canonical_toModel y) hx hy)

theorem value_div_coe (hx : value x = some (a : EReal)) (hy : value y = some (b : EReal))
    (hb : b ≠ 0) : value (x / y) = some (round ((a / b : ℝ) : EReal)) :=
  value_pack (rounds_div hx hy hb)

/-! ### Infinite operands -/

theorem eq_infinity_positive {u : UnpackedFloat} (h : unpackedValue u = some ⊤) :
    u = .infinity .positive := by
  cases u with
  | infinity s => cases s <;> simp_all [unpackedValue, signed]
  | _ => simp [unpackedValue] at h

theorem eq_infinity_negative {u : UnpackedFloat} (h : unpackedValue u = some ⊥) :
    u = .infinity .negative := by
  cases u with
  | infinity s => cases s <;> simp_all [unpackedValue, signed]
  | _ => simp [unpackedValue] at h

theorem infinity_add (s : Sign) {u : UnpackedFloat} (hu : u ≠ .notANumber)
    (hs : u ≠ .infinity (-s)) :
    UnpackedFloat.add Format.binary64 (.infinity s) u = .infinity s := by
  cases u with
  | notANumber => exact absurd rfl hu
  | infinity t => cases s <;> cases t <;> first | rfl | exact absurd rfl hs
  | _ => rfl

theorem add_infinity (s : Sign) {u : UnpackedFloat} (hu : u ≠ .notANumber)
    (hs : u ≠ .infinity (-s)) :
    UnpackedFloat.add Format.binary64 u (.infinity s) = .infinity s := by
  cases u with
  | notANumber => exact absurd rfl hu
  | infinity t => cases s <;> cases t <;> first | rfl | exact absurd rfl hs
  | _ => rfl

theorem value_pack_infinity (s : Sign) :
    value (.ofModel (.pack (.infinity s))) = some (signed s ⊤) := by
  rw [value, unpack_model_pack (u := .infinity s) trivial]
  rfl

/-- An infinite number stays infinite when it is divided by a positive one. -/
theorem value_top_div {x y : Float} {b : ℝ} (hx : value x = some ⊤)
    (hy : value y = some (b : EReal)) (hb : 0 < b) : value (x / y) = some ⊤ := by
  change value (.ofModel (.pack (UnpackedFloat.div Format.binary64 x.toModel.unpack
    y.toModel.unpack))) = some ⊤
  rw [eq_infinity_positive hx]
  rcases eq_zero_or_finite hy with ⟨rfl, -⟩ | ⟨s, m, e, hm, rfl, hu⟩
  · exact absurd hb (lt_irrefl 0)
  · have hv : (0 : ℝ) ≤ m * 2 ^ e := by positivity
    rw [hu]
    cases s with
    | negative => exact absurd hb (not_lt.mpr (neg_nonpos.mpr hv))
    | positive => exact value_pack_infinity .positive

theorem ne_of_value {x : Float} {a : EReal} {u : UnpackedFloat} (hx : value x = some a)
    (h : unpackedValue u ≠ some a) : x.toModel.unpack ≠ u := by
  intro hu
  rw [value, hu] at hx
  exact h hx

/-- A sum is undefined only where infinities of both signs meet. -/
theorem value_add {x y : Float} {a b : EReal} (hx : value x = some a) (hy : value y = some b)
    (hbot : a ≠ ⊥ ∨ b ≠ ⊤) (htop : a ≠ ⊤ ∨ b ≠ ⊥) : value (x + y) = some (round (a + b)) := by
  have hxn : x.toModel.unpack ≠ .notANumber := ne_of_value hx (by simp [unpackedValue])
  have hyn : y.toModel.unpack ≠ .notANumber := ne_of_value hy (by simp [unpackedValue])
  have hinfinity (s : Sign) (h : UnpackedFloat.add Format.binary64 x.toModel.unpack
      y.toModel.unpack = .infinity s) : value (x + y) = some (signed s ⊤) := by
    change value (.ofModel (.pack (UnpackedFloat.add Format.binary64 _ _))) = _
    rw [h, value_pack_infinity]
  have hpositive {u : UnpackedFloat} (h : unpackedValue u ≠ some ⊥) : u ≠ .infinity .negative := by
    rintro rfl
    exact h rfl
  have hnegative {u : UnpackedFloat} (h : unpackedValue u ≠ some ⊤) : u ≠ .infinity .positive := by
    rintro rfl
    exact h rfl
  rw [value] at hx hy
  rcases eq_or_ne a ⊤ with rfl | hatop
  · have hb : b ≠ ⊥ := htop.resolve_left (by simp)
    rw [EReal.top_add_of_ne_bot hb, round_top]
    refine hinfinity .positive ?_
    rw [eq_infinity_positive hx]
    exact infinity_add .positive hyn (hpositive (by simpa [hy] using hb))
  rcases eq_or_ne a ⊥ with rfl | habot
  · have hb : b ≠ ⊤ := hbot.resolve_left (by simp)
    rw [EReal.bot_add, round_bot]
    refine hinfinity .negative ?_
    rw [eq_infinity_negative hx]
    exact infinity_add .negative hyn (hnegative (by simpa [hy] using hb))
  rcases eq_or_ne b ⊤ with rfl | hbtop
  · rw [EReal.add_top_of_ne_bot habot, round_top]
    refine hinfinity .positive ?_
    rw [eq_infinity_positive hy]
    exact add_infinity .positive hxn (hpositive (by simpa [hx] using habot))
  rcases eq_or_ne b ⊥ with rfl | hbbot
  · rw [EReal.add_bot, round_bot]
    refine hinfinity .negative ?_
    rw [eq_infinity_negative hy]
    exact add_infinity .negative hxn (hnegative (by simpa [hx] using hatop))
  · lift a to ℝ using ⟨hatop, habot⟩
    lift b to ℝ using ⟨hbtop, hbbot⟩
    exact value_add_coe hx hy

/-! ### Signs -/

theorem saturate_neg (u : UnpackedFloat) : saturate u.neg = (saturate u).neg := by
  cases u with
  | finite s m e hm =>
    simp only [UnpackedFloat.neg, saturate]
    split <;> rfl
  | _ => rfl

theorem unpack_neg (x : Float) : (-x).toModel.unpack = x.toModel.unpack.neg := by
  change (Float.Model.pack x.toModel.unpack.neg).unpack = _
  rw [unpack_model_pack (canonical_toModel x).neg, saturate_neg, saturate_toModel]

theorem value_neg (x : Float) : value (-x) = (value x).map (-·) := by
  rw [value, unpack_neg, unpackedValue_neg, value]

theorem sub_eq_add (x y : Float) : x - y = x + -y := by
  change Float.ofModel (.pack (UnpackedFloat.sub Format.binary64 _ _)) =
    .ofModel (.pack (UnpackedFloat.add Format.binary64 _ _))
  rw [unpack_neg, sub_eq_add_opposite]

/-- A difference is undefined only between infinities of the same sign. -/
theorem value_sub {x y : Float} {a b : EReal} (hx : value x = some a) (hy : value y = some b)
    (hbot : a ≠ ⊥ ∨ b ≠ ⊥) (htop : a ≠ ⊤ ∨ b ≠ ⊤) : value (x - y) = some (round (a - b)) := by
  rw [sub_eq_add, sub_eq_add_neg]
  exact value_add hx (by rw [value_neg, hy]; rfl) (by simpa using hbot) (by simpa using htop)

/-- Taking the absolute value is to change the sign of what is negative. -/
theorem abs_eq_self_or_neg {u : UnpackedFloat} {a : EReal} (h : unpackedValue u = some a) :
    (u.abs = u ∧ 0 ≤ a) ∨ (u.abs = u.neg ∧ a ≤ 0) := by
  cases u with
  | notANumber => cases h
  | infinity s =>
    cases h
    cases s with
    | negative => exact .inr ⟨rfl, bot_le⟩
    | positive => exact .inl ⟨rfl, le_top⟩
  | zero s =>
    cases h
    cases s with
    | negative => exact .inr ⟨rfl, le_refl _⟩
    | positive => exact .inl ⟨rfl, le_refl _⟩
  | finite s m e hm =>
    have hv : (0 : ℝ) ≤ m * 2 ^ e := by positivity
    cases h
    cases s with
    | negative =>
      refine .inr ⟨rfl, ?_⟩
      exact_mod_cast neg_nonpos.mpr hv
    | positive =>
      refine .inl ⟨rfl, ?_⟩
      exact_mod_cast hv

theorem value_abs {x : Float} {a : EReal} (hx : value x = some a) :
    value x.abs = some (max a (-a)) := by
  change value (.ofModel (.pack x.toModel.unpack.abs)) = _
  rcases abs_eq_self_or_neg hx with ⟨habs, ha⟩ | ⟨habs, ha⟩
  · rw [habs, value, unpack_model_pack (canonical_toModel x), saturate_toModel, ← value, hx,
      max_eq_left ((EReal.neg_le_zero.mpr ha).trans ha)]
  · have := value_neg x
    rw [hx] at this
    rw [habs, max_eq_right (ha.trans (EReal.neg_nonneg.mpr ha))]
    exact this

theorem value_abs_none {x : Float} (hx : value x = none) : value x.abs = none := by
  have hu : x.toModel.unpack = .notANumber := by
    rw [value] at hx
    cases h : x.toModel.unpack with
    | notANumber => rfl
    | _ =>
      rw [h] at hx
      cases hx
  change value (.ofModel (.pack x.toModel.unpack.abs)) = none
  rw [hu]
  rfl

theorem isFinite_iff (x : Float) : x.isFinite = true ↔ ∃ r : ℝ, value x = some (r : EReal) := by
  change x.toModel.unpack.isFinite = true ↔ _
  rw [value]
  cases x.toModel.unpack with
  | notANumber => simp [UnpackedFloat.isFinite, unpackedValue]
  | infinity s => cases s <;> simp [UnpackedFloat.isFinite, unpackedValue, signed]
  | zero s => exact ⟨fun _ => ⟨0, rfl⟩, fun _ => rfl⟩
  | finite s m e hm => exact ⟨fun _ => ⟨_, rfl⟩, fun _ => rfl⟩

end SatNav.Binary64
