import SatNav.Proofs.Binary64.Value

/-!
# The order of doubles

Doubles compare as their values do, and a NaN is in no relation to anything. Canonical
magnitudes are ordered by their exponents and then by their significands.
-/

namespace SatNav.Binary64

open Float.Model Float.Model.UnpackedFloat

/-- Of two magnitudes the one with the larger exponent has a full significand. -/
theorem magnitude_lt {s t : Sign} {m n : ℕ} {e f : ℤ} {hm : 0 < m} {hn : 0 < n}
    (hu : Canonical (.finite s m e hm)) (hw : Canonical (.finite t n f hn)) (h : e < f) :
    (m * 2 ^ e : ℝ) < n * 2 ^ f := by
  obtain ⟨hbits, hlow, -⟩ := hu
  have hfull : (2 : ℝ) ^ 52 ≤ n := by
    exact_mod_cast hw.2.2.resolve_right (by omega)
  calc (m * 2 ^ e : ℝ) < 2 ^ 53 * 2 ^ e := by
        gcongr
        exact_mod_cast hbits
    _ = 2 ^ 52 * 2 ^ (e + 1) := by
        rw [zpow_add_one₀ (by norm_num)]
        ring
    _ ≤ n * 2 ^ f := by
        gcongr
        · norm_num
        · omega

theorem compare_magnitude {s t : Sign} {m n : ℕ} {e f : ℤ} {hm : 0 < m} {hn : 0 < n}
    (hu : Canonical (.finite s m e hm)) (hw : Canonical (.finite t n f hn)) :
    (compare e f).then (compare m n) = compare (m * 2 ^ e : ℝ) (n * 2 ^ f) := by
  rcases lt_trichotomy e f with h | rfl | h
  · rw [compare_lt_iff_lt.mpr h, compare_lt_iff_lt.mpr (magnitude_lt hu hw h)]
    rfl
  · rw [compare_eq_iff_eq.mpr rfl]
    change compare m n = _
    have hpos : (0 : ℝ) < 2 ^ e := by positivity
    rcases lt_trichotomy m n with h | rfl | h
    · rw [compare_lt_iff_lt.mpr h, compare_lt_iff_lt.mpr]
      exact mul_lt_mul_of_pos_right (by exact_mod_cast h) hpos
    · rw [compare_eq_iff_eq.mpr rfl, compare_eq_iff_eq.mpr rfl]
    · rw [compare_gt_iff_gt.mpr h, compare_gt_iff_gt.mpr]
      exact mul_lt_mul_of_pos_right (by exact_mod_cast h) hpos
  · rw [compare_gt_iff_gt.mpr h, compare_gt_iff_gt.mpr (magnitude_lt hw hu h)]
    rfl

theorem compare_coe (a b : ℝ) : compare (a : EReal) (b : EReal) = compare a b := by
  rcases lt_trichotomy a b with h | rfl | h
  · rw [compare_lt_iff_lt.mpr h, compare_lt_iff_lt.mpr (EReal.coe_lt_coe_iff.mpr h)]
  · rw [compare_eq_iff_eq.mpr rfl, compare_eq_iff_eq.mpr rfl]
  · rw [compare_gt_iff_gt.mpr h, compare_gt_iff_gt.mpr (EReal.coe_lt_coe_iff.mpr h)]

theorem compare_neg (a b : ℝ) : compare (-a) (-b) = (compare a b).swap := by
  rcases lt_trichotomy a b with h | rfl | h
  · rw [compare_lt_iff_lt.mpr h, compare_gt_iff_gt.mpr (neg_lt_neg h)]
    rfl
  · rw [compare_eq_iff_eq.mpr rfl, compare_eq_iff_eq.mpr rfl]
    rfl
  · rw [compare_gt_iff_gt.mpr h, compare_lt_iff_lt.mpr (neg_lt_neg h)]
    rfl

theorem compare_finite {s t : Sign} {m n : ℕ} {e f : ℤ} {hm : 0 < m} {hn : 0 < n}
    (hu : Canonical (.finite s m e hm)) (hw : Canonical (.finite t n f hn)) :
    UnpackedFloat.compare (.finite s m e hm) (.finite t n f hn) =
      some (compare (signed s (m * 2 ^ e : ℝ)) (signed t (n * 2 ^ f : ℝ))) := by
  have hx : (0 : ℝ) < m * 2 ^ e := by positivity
  have hy : (0 : ℝ) < n * 2 ^ f := by positivity
  cases s with
  | negative =>
    cases t with
    | negative =>
      rw [signed, signed, compare_neg, ← compare_magnitude hu hw]
      rfl
    | positive =>
      rw [signed, signed, compare_lt_iff_lt.mpr (by linarith)]
      rfl
  | positive =>
    cases t with
    | negative =>
      rw [signed, signed, compare_gt_iff_gt.mpr (by linarith)]
      rfl
    | positive =>
      rw [signed, signed, ← compare_magnitude hu hw]
      rfl

theorem some_lt_of_lt {a b : EReal} (h : a < b) : some .lt = some (compare a b) := by
  rw [compare_lt_iff_lt.mpr h]

theorem some_gt_of_gt {a b : EReal} (h : b < a) : some .gt = some (compare a b) := by
  rw [compare_gt_iff_gt.mpr h]

theorem some_eq_self (a : EReal) : some .eq = some (compare a a) := by
  rw [compare_eq_iff_eq.mpr rfl]

theorem infinity_compare (s : Sign) {w : UnpackedFloat} {b : EReal}
    (hb : unpackedValue w = some b) :
    UnpackedFloat.compare (.infinity s) w = some (compare (signed s ⊤) b) := by
  cases w with
  | notANumber => cases hb
  | infinity t =>
    cases hb
    match s, t with
    | .negative, .negative => exact some_eq_self ⊥
    | .negative, .positive => exact some_lt_of_lt bot_lt_top
    | .positive, .negative => exact some_gt_of_gt bot_lt_top
    | .positive, .positive => exact some_eq_self ⊤
  | zero t =>
    cases hb
    match s with
    | .negative => exact some_lt_of_lt (EReal.bot_lt_coe 0)
    | .positive => exact some_gt_of_gt (EReal.coe_lt_top 0)
  | finite t n f hn =>
    cases hb
    match s with
    | .negative => exact some_lt_of_lt (EReal.bot_lt_coe _)
    | .positive => exact some_gt_of_gt (EReal.coe_lt_top _)

theorem compare_infinity (t : Sign) {u : UnpackedFloat} {a : ℝ}
    (ha : unpackedValue u = some (a : EReal)) :
    UnpackedFloat.compare u (.infinity t) = some (compare (a : EReal) (signed t ⊤)) := by
  rcases eq_zero_or_finite ha with ⟨rfl, s, rfl⟩ | ⟨s, m, e, hm, rfl, rfl⟩ <;>
    cases t with
    | negative => exact some_gt_of_gt (EReal.bot_lt_coe _)
    | positive => exact some_lt_of_lt (EReal.coe_lt_top _)

theorem compare_real {u w : UnpackedFloat} (hu : Canonical u) (hw : Canonical w) {a b : ℝ}
    (ha : unpackedValue u = some (a : EReal)) (hb : unpackedValue w = some (b : EReal)) :
    u.compare w = some (compare (a : EReal) (b : EReal)) := by
  rcases eq_zero_or_finite ha with ⟨rfl, s, rfl⟩ | ⟨s, m, e, hm, rfl, rfl⟩
  · rcases eq_zero_or_finite hb with ⟨rfl, t, rfl⟩ | ⟨t, n, f, hn, rfl, rfl⟩
    · exact some_eq_self _
    · have hy : (0 : ℝ) < n * 2 ^ f := by positivity
      match t with
      | .negative => exact some_gt_of_gt (by exact_mod_cast neg_lt_zero.mpr hy)
      | .positive => exact some_lt_of_lt (by exact_mod_cast hy)
  · rcases eq_zero_or_finite hb with ⟨rfl, t, rfl⟩ | ⟨t, n, f, hn, rfl, rfl⟩
    · have hx : (0 : ℝ) < m * 2 ^ e := by positivity
      match s with
      | .negative => exact some_lt_of_lt (by exact_mod_cast neg_lt_zero.mpr hx)
      | .positive => exact some_gt_of_gt (by exact_mod_cast hx)
    · rw [compare_finite hu hw, compare_coe]

theorem infinite_or_real {u : UnpackedFloat} {a : EReal} (h : unpackedValue u = some a) :
    (∃ s, u = .infinity s ∧ a = signed s ⊤) ∨ ∃ r : ℝ, a = r := by
  cases u with
  | notANumber => cases h
  | infinity s => exact .inl ⟨s, rfl, (Option.some.inj h).symm⟩
  | zero s => exact .inr ⟨0, (Option.some.inj h).symm⟩
  | finite s m e hm => exact .inr ⟨_, (Option.some.inj h).symm⟩

theorem compare_eq_compare {u w : UnpackedFloat} (hu : Canonical u) (hw : Canonical w)
    {a b : EReal} (ha : unpackedValue u = some a) (hb : unpackedValue w = some b) :
    u.compare w = some (compare a b) := by
  rcases infinite_or_real ha with ⟨s, rfl, rfl⟩ | ⟨r, rfl⟩
  · exact infinity_compare s hb
  · rcases infinite_or_real hb with ⟨t, rfl, rfl⟩ | ⟨q, rfl⟩
    · exact compare_infinity t ha
    · exact compare_real hu hw ha hb

theorem compare_eq_none {u w : UnpackedFloat}
    (h : unpackedValue u = none ∨ unpackedValue w = none) : u.compare w = none := by
  rcases h with h | h
  · cases u with
    | notANumber => rfl
    | _ => cases h
  · cases w with
    | notANumber => cases u <;> rfl
    | _ => cases h

/-- A comparison holds of two doubles if they have values of which it holds. -/
theorem exists_compare_iff (x y : Float) (p : Ordering → Prop) :
    (∃ o, x.toModel.unpack.compare y.toModel.unpack = some o ∧ p o) ↔
      ∃ a b, value x = some a ∧ value y = some b ∧ p (compare a b) := by
  rw [value, value]
  constructor
  · rintro ⟨o, ho, hp⟩
    cases ha : unpackedValue x.toModel.unpack with
    | none =>
      rw [compare_eq_none (.inl ha)] at ho
      cases ho
    | some a =>
      cases hb : unpackedValue y.toModel.unpack with
      | none =>
        rw [compare_eq_none (.inr hb)] at ho
        cases ho
      | some b =>
        rw [compare_eq_compare (canonical_toModel x) (canonical_toModel y) ha hb] at ho
        cases ho
        exact ⟨a, b, rfl, rfl, hp⟩
  · rintro ⟨a, b, ha, hb, hp⟩
    exact ⟨_, compare_eq_compare (canonical_toModel x) (canonical_toModel y) ha hb, hp⟩

theorem lt_iff (x y : Float) :
    x < y ↔ ∃ a b, value x = some a ∧ value y = some b ∧ a < b := by
  have hcompare : x < y ↔ ∃ o, x.toModel.unpack.compare y.toModel.unpack = some o ∧ o = .lt := by
    simp [LT.lt, Float.lt, Float.Model.lt, UnpackedFloat.lt]
  rw [hcompare, exists_compare_iff]
  simp only [compare_lt_iff_lt]

theorem le_iff (x y : Float) :
    x ≤ y ↔ ∃ a b, value x = some a ∧ value y = some b ∧ a ≤ b := by
  have hcompare : x ≤ y ↔
      ∃ o, x.toModel.unpack.compare y.toModel.unpack = some o ∧ o ≠ .gt := by
    change decide (Option.any (·.isLE) (x.toModel.unpack.compare y.toModel.unpack) = true) =
      true ↔ _
    rw [decide_eq_true_iff, Option.any_eq_true]
    simp only [Ordering.isLE_iff_ne_gt, ne_eq]
  rw [hcompare, exists_compare_iff]
  simp only [compare_le_iff_le]

theorem beq_iff (x y : Float) :
    (x == y) = true ↔ ∃ a b, value x = some a ∧ value y = some b ∧ a = b := by
  have hcompare : (x == y) = true ↔
      ∃ o, x.toModel.unpack.compare y.toModel.unpack = some o ∧ o = .eq := by
    change (x.toModel.unpack.compare y.toModel.unpack == some .eq) = true ↔ _
    simp
  rw [hcompare, exists_compare_iff]
  simp only [compare_eq_iff_eq]

/-- The comparison of doubles of which the values are known. -/
theorem lt_iff_of_value {x y : Float} {a b : EReal} (hx : value x = some a)
    (hy : value y = some b) : x < y ↔ a < b := by
  rw [lt_iff]
  simp [hx, hy]

theorem le_iff_of_value {x y : Float} {a b : EReal} (hx : value x = some a)
    (hy : value y = some b) : x ≤ y ↔ a ≤ b := by
  rw [le_iff]
  simp [hx, hy]

theorem beq_iff_of_value {x y : Float} {a b : EReal} (hx : value x = some a)
    (hy : value y = some b) : (x == y) = true ↔ a = b := by
  rw [beq_iff]
  simp [hx, hy, eq_comm]

end SatNav.Binary64
