import SatNav.Proofs.Binary64.Monotone
import SatNav.Proofs.Binary64.Thresholds

/-!
# Results that are defined

Products and quotients are undefined only where infinities or zeros meet in them. Everywhere else
they are the exact ones, rounded once, and a quotient by zero is infinite. So it can be said
from the operands alone when a quotient is finite (`FiniteQuotient`) and when it is
positive as well (`PositiveQuotient`).
-/

namespace SatNav.Binary64

open Float.Model Float.Model.UnpackedFloat

/-! ### Infinite operands -/

theorem representable_zero : Representable 0 := by
  simpa using representable_intCast (n := 0) (by norm_num)

theorem round_zero : round 0 = 0 := representable_zero.round

theorem coe_ne_signed_top {c : ℝ} (s : Sign) : (c : EReal) ≠ signed s ⊤ := by
  cases s <;> simp [signed]

theorem signed_top_mul_signed_top (s t : Sign) :
    signed s (⊤ : EReal) * signed t ⊤ = signed (s * t) ⊤ := by
  match s, t with
  | .negative, .negative => exact EReal.bot_mul_bot
  | .negative, .positive => exact EReal.bot_mul_top
  | .positive, .negative => exact EReal.top_mul_bot
  | .positive, .positive => exact EReal.top_mul_top

theorem signed_top_mul_signed_coe (s t : Sign) {v : ℝ} (hv : 0 < v) :
    signed s (⊤ : EReal) * ((signed t v : ℝ) : EReal) = signed (s * t) ⊤ := by
  match s, t with
  | .negative, .negative => exact EReal.bot_mul_coe_of_neg (neg_lt_zero.mpr hv)
  | .negative, .positive => exact EReal.bot_mul_coe_of_pos hv
  | .positive, .negative => exact EReal.top_mul_coe_of_neg (neg_lt_zero.mpr hv)
  | .positive, .positive => exact EReal.top_mul_coe_of_pos hv

theorem signed_top_div_signed_coe (s t : Sign) {v : ℝ} (hv : 0 < v) :
    signed s (⊤ : EReal) / ((signed t v : ℝ) : EReal) = signed (s / t) ⊤ := by
  have hinv : ((signed t v : ℝ) : EReal)⁻¹ = ((signed t v⁻¹ : ℝ) : EReal) := by
    rw [← EReal.coe_inv]
    cases t <;> simp [signed, inv_neg]
  rw [EReal.div_eq_inv_mul, mul_comm, hinv, signed_top_mul_signed_coe s t (inv_pos.mpr hv)]
  rfl

theorem mul_comm_unpacked (u w : UnpackedFloat) :
    UnpackedFloat.mul Format.binary64 u w = UnpackedFloat.mul Format.binary64 w u := by
  have hsign (s t : Sign) : s * t = t * s := by
    cases s <;> cases t <;> rfl
  cases u <;> cases w <;> simp only [UnpackedFloat.mul, hsign, Nat.mul_comm, Int.add_comm]

theorem infinity_mul (s : Sign) {w : UnpackedFloat} {b : EReal} (hb : unpackedValue w = some b) :
    UnpackedFloat.mul Format.binary64 (.infinity s) w = .notANumber ∨
      ∃ r, UnpackedFloat.mul Format.binary64 (.infinity s) w = .infinity r ∧
        signed r ⊤ = signed s ⊤ * b := by
  cases w with
  | notANumber => cases hb
  | zero t => exact .inl rfl
  | infinity t =>
    cases hb
    exact .inr ⟨_, rfl, (signed_top_mul_signed_top s t).symm⟩
  | finite t m e hm =>
    cases hb
    exact .inr ⟨_, rfl, (signed_top_mul_signed_coe s t (by positivity)).symm⟩

theorem infinity_div (s : Sign) {w : UnpackedFloat} {b : EReal} (hb : unpackedValue w = some b) :
    UnpackedFloat.div Format.binary64 (.infinity s) w = .notANumber ∨
      ∃ r, UnpackedFloat.div Format.binary64 (.infinity s) w = .infinity r ∧
        (b ≠ 0 → signed r ⊤ = signed s ⊤ / b) := by
  cases w with
  | notANumber => cases hb
  | zero t =>
    cases hb
    exact .inr ⟨_, rfl, fun h => absurd rfl h⟩
  | infinity t => exact .inl rfl
  | finite t m e hm =>
    cases hb
    exact .inr ⟨_, rfl, fun _ => (signed_top_div_signed_coe s t (by positivity)).symm⟩

/-- A real number by an infinite one is zero, with one sign or the other. -/
theorem div_infinity {u : UnpackedFloat} {r : ℝ} (hr : unpackedValue u = some (r : EReal))
    (t : Sign) : ∃ s, UnpackedFloat.div Format.binary64 u (.infinity t) = .zero s := by
  rcases eq_zero_or_finite hr with ⟨-, s, rfl⟩ | ⟨s, m, e, hm, -, rfl⟩ <;> exact ⟨_, rfl⟩

/-- A real number by zero is infinite or undefined. -/
theorem div_zero_unpacked {u : UnpackedFloat} {r : ℝ} (hr : unpackedValue u = some (r : EReal))
    (t : Sign) :
    UnpackedFloat.div Format.binary64 u (.zero t) = .notANumber ∨
      ∃ s, UnpackedFloat.div Format.binary64 u (.zero t) = .infinity s := by
  rcases eq_zero_or_finite hr with ⟨-, s, rfl⟩ | ⟨s, m, e, hm, -, rfl⟩
  · exact .inl rfl
  · exact .inr ⟨_, rfl⟩

/-! ### Results that are defined -/

variable {x y : Float} {c : EReal}

theorem value_pack_notANumber : value (.ofModel (.pack .notANumber)) = none := rfl

theorem value_pack_zero (s : Sign) : value (.ofModel (.pack (.zero s))) = some 0 := by
  rw [value, unpack_model_pack (u := .zero s) trivial]
  rfl

theorem unpack_of_value_zero (hx : value x = some ((0 : ℝ) : EReal)) :
    ∃ s, x.toModel.unpack = .zero s := by
  rcases eq_zero_or_finite hx with ⟨-, hzero⟩ | ⟨s, m, e, hm, hne, -⟩
  · exact hzero
  · have hv : (0 : ℝ) < m * 2 ^ e := by positivity
    cases s with
    | negative => exact absurd hne (neg_lt_zero.mpr hv).ne'
    | positive => exact absurd hne hv.ne

theorem value_mul (x y : Float) :
    value (x * y) = value (.ofModel (.pack
      (UnpackedFloat.mul Format.binary64 x.toModel.unpack y.toModel.unpack))) := rfl

theorem value_div (x y : Float) :
    value (x / y) = value (.ofModel (.pack
      (UnpackedFloat.div Format.binary64 x.toModel.unpack y.toModel.unpack))) := rfl

theorem mul_comm_value (x y : Float) : value (x * y) = value (y * x) := by
  rw [value_mul, value_mul, mul_comm_unpacked]

/-- The product of an infinite number and another one, as far as it is defined. -/
theorem eq_mul_of_infinity {s : Sign} {b : EReal} (hx : x.toModel.unpack = .infinity s)
    (hy : value y = some b) (h : value (x * y) = some c) : c = signed s ⊤ * b := by
  rw [value_mul, hx] at h
  rcases infinity_mul s hy with hnan | ⟨r, hr, htop⟩
  · rw [hnan, value_pack_notANumber] at h
    cases h
  · rw [hr, value_pack_infinity] at h
    rw [← htop]
    exact (Option.some.inj h).symm

theorem exists_values_of_mul (h : value (x * y) = some c) :
    ∃ a b, value x = some a ∧ value y = some b := by
  cases ha : value x with
  | none =>
    rw [value_mul, eq_notANumber ha] at h
    cases value_pack_notANumber.symm.trans h
  | some a =>
    cases hb : value y with
    | none =>
      rw [mul_comm_value, value_mul, eq_notANumber hb] at h
      cases value_pack_notANumber.symm.trans h
    | some b => exact ⟨a, b, rfl, rfl⟩

/-- A product that is defined is the rounded product of two numbers. -/
theorem value_mul_eq_some (h : value (x * y) = some c) :
    ∃ a b, value x = some a ∧ value y = some b ∧ c = round (a * b) := by
  obtain ⟨a, b, ha, hb⟩ := exists_values_of_mul h
  refine ⟨a, b, ha, hb, ?_⟩
  rcases infinite_or_real ha with ⟨s, hs, rfl⟩ | ⟨r, rfl⟩
  · rw [← eq_mul_of_infinity hs hb h, round_value h]
  · rcases infinite_or_real hb with ⟨t, ht, rfl⟩ | ⟨q, rfl⟩
    · rw [mul_comm_value] at h
      rw [mul_comm, ← eq_mul_of_infinity ht ha h, round_value h]
    · exact Option.some.inj (h.symm.trans (value_mul_coe ha hb))

/-- A real number by an infinite one is zero. -/
theorem value_div_of_infinite {a : ℝ} {s : Sign} (hx : value x = some (a : EReal))
    (hy : value y = some (signed s ⊤)) : value (x / y) = some 0 := by
  rcases infinite_or_real hy with ⟨t, ht, -⟩ | ⟨q, hq⟩
  · obtain ⟨r, hr⟩ := div_infinity hx t
    rw [value_div, ht, hr, value_pack_zero]
  · exact absurd hq.symm (coe_ne_signed_top s)

theorem exists_values_of_div (h : value (x / y) = some c) :
    ∃ a b, value x = some a ∧ value y = some b := by
  cases ha : value x with
  | none =>
    rw [value_div, eq_notANumber ha] at h
    cases value_pack_notANumber.symm.trans h
  | some a =>
    cases hb : value y with
    | none =>
      have hundefined (u : UnpackedFloat) :
          UnpackedFloat.div Format.binary64 u .notANumber = .notANumber := by cases u <;> rfl
      rw [value_div, eq_notANumber hb, hundefined] at h
      cases value_pack_notANumber.symm.trans h
    | some b => exact ⟨a, b, rfl, rfl⟩

/-- A quotient that is defined is the rounded quotient of two numbers, or infinite, by zero. -/
theorem value_div_eq_some (h : value (x / y) = some c) :
    ∃ a b, value x = some a ∧ value y = some b ∧
      (b = 0 ∧ (∃ s, c = signed s ⊤) ∨ b ≠ 0 ∧ c = round (a / b)) := by
  obtain ⟨a, b, ha, hb⟩ := exists_values_of_div h
  refine ⟨a, b, ha, hb, ?_⟩
  rcases infinite_or_real ha with ⟨s, hs, rfl⟩ | ⟨r, rfl⟩
  · have hround := round_value h
    rw [value_div, hs] at h
    rcases infinity_div s hb with hnan | ⟨t, ht, htop⟩
    · rw [hnan, value_pack_notANumber] at h
      cases h
    · rw [ht, value_pack_infinity] at h
      obtain rfl := Option.some.inj h
      rcases eq_or_ne b 0 with hzero | hzero
      · exact .inl ⟨hzero, t, rfl⟩
      · exact .inr ⟨hzero, by rw [← htop hzero, hround]⟩
  · rcases infinite_or_real hb with ⟨t, -, rfl⟩ | ⟨q, rfl⟩
    · obtain rfl := Option.some.inj ((value_div_of_infinite ha hb).symm.trans h)
      refine .inr ⟨by cases t <;> simp [signed], ?_⟩
      cases t <;> simp [signed, round_zero]
    · rcases eq_or_ne q 0 with rfl | hq
      · refine .inl ⟨rfl, ?_⟩
        obtain ⟨t, ht⟩ := unpack_of_value_zero hb
        rw [value_div, ht] at h
        rcases div_zero_unpacked ha t with hnan | ⟨s, hs⟩
        · rw [hnan, value_pack_notANumber] at h
          cases h
        · rw [hs, value_pack_infinity] at h
          exact ⟨s, (Option.some.inj h).symm⟩
      · exact .inr ⟨by exact_mod_cast hq, Option.some.inj (h.symm.trans (value_div_coe ha hb hq))⟩

/-- An infinite number stays infinite when it is divided. -/
theorem div_ne_coe_of_infinity {s : Sign} {b : EReal} {c : ℝ}
    (hx : x.toModel.unpack = .infinity s) (hy : value y = some b) :
    value (x / y) ≠ some (c : EReal) := by
  intro h
  rw [value_div, hx] at h
  rcases infinity_div s hy with hnan | ⟨t, ht, -⟩
  · rw [hnan, value_pack_notANumber] at h
    cases h
  · rw [ht, value_pack_infinity] at h
    exact coe_ne_signed_top t (Option.some.inj h).symm

theorem exists_value_of_mul_self {r : ℝ} (h : value (x * x) = some (r : EReal)) :
    ∃ a : ℝ, value x = some (a : EReal) := by
  obtain ⟨a, b, ha, hb, hround⟩ := value_mul_eq_some h
  obtain rfl := Option.some.inj (ha.symm.trans hb)
  rcases infinite_or_real ha with ⟨s, -, rfl⟩ | ⟨a, rfl⟩
  · rw [signed_top_mul_signed_top] at hround
    cases s <;> exact absurd hround (EReal.coe_ne_top r)
  · exact ⟨a, ha⟩

theorem exists_value_of_pos (hfinite : x.isFinite = true) (hpos : 0.0 < x) :
    ∃ r : ℝ, value x = some (r : EReal) ∧ 0 < r := by
  obtain ⟨r, hr⟩ := (isFinite_iff x).mp hfinite
  rw [lt_iff_of_value value_decimal_zero hr, EReal.coe_lt_coe_iff] at hpos
  exact ⟨r, hr, hpos⟩

/-! ### Operands of the same value -/

theorem value_eq_of_beq (h : (x == y) = true) : value x = value y := by
  obtain ⟨a, b, ha, hb, rfl⟩ := (beq_iff x y).mp h
  rw [ha, hb]

theorem eq_infinity_of_value {u : UnpackedFloat} {s : Sign}
    (h : unpackedValue u = some (signed s ⊤)) : u = .infinity s := by
  cases s with
  | negative => exact eq_infinity_negative h
  | positive => exact eq_infinity_positive h

/-- The sign of a zero has no part in a quotient by a positive number. -/
theorem value_div_congr_left {x' : Float} {b : EReal} (h : value x' = value x)
    (hy : value y = some b) (hb : 0 < b) : value (x' / y) = value (x / y) := by
  cases hx : value x with
  | none => rw [value_div, value_div, eq_notANumber hx, eq_notANumber (h.trans hx)]
  | some a =>
    have hx' := h.trans hx
    rcases infinite_or_real hx with ⟨s, hs, rfl⟩ | ⟨r, rfl⟩
    · rw [value_div, value_div, hs, eq_infinity_of_value hx']
    · rcases infinite_or_real hy with ⟨t, -, rfl⟩ | ⟨c, rfl⟩
      · rw [value_div_of_infinite hx hy, value_div_of_infinite hx' hy]
      · have hc : c ≠ 0 := (EReal.coe_pos.mp hb).ne'
        rw [value_div_coe hx hy hc, value_div_coe hx' hy hc]

/-! ### Ranges of quotients -/

/-- A quotient is finite where a finite number is divided by an infinite one, or by one that is not
zero and does not make it too large. -/
def FiniteQuotient (x y : Float) : Prop :=
  ∃ a : ℝ, value x = some (a : EReal) ∧
    ((∃ s, value y = some (signed s ⊤)) ∨
      ∃ b : ℝ, value y = some (b : EReal) ∧ b ≠ 0 ∧ |a / b| < overflowBound)

/-- A quotient is finite and positive where both numbers are finite, and it is neither too small nor
too large. -/
def PositiveQuotient (x y : Float) : Prop :=
  ∃ a b : ℝ, value x = some (a : EReal) ∧ value y = some (b : EReal) ∧
    underflowBound < a / b ∧ a / b < overflowBound

theorem isFinite_div_iff (x y : Float) : (x / y).isFinite = true ↔ FiniteQuotient x y := by
  constructor
  · intro hfinite
    obtain ⟨c, hc⟩ := (isFinite_iff _).mp hfinite
    obtain ⟨a, b, ha, hb, hquotient⟩ := value_div_eq_some hc
    rcases infinite_or_real ha with ⟨s, hs, -⟩ | ⟨r, rfl⟩
    · exact absurd hc (div_ne_coe_of_infinity hs hb)
    refine ⟨r, ha, ?_⟩
    rcases infinite_or_real hb with ⟨t, -, rfl⟩ | ⟨q, rfl⟩
    · exact .inl ⟨t, hb⟩
    · rcases hquotient with ⟨-, s, hs⟩ | ⟨hne, hround⟩
      · exact absurd hs (coe_ne_signed_top s)
      · refine .inr ⟨q, hb, by exact_mod_cast hne, exists_round_eq_coe_iff.mp ⟨c, ?_⟩⟩
        rw [EReal.coe_div, hround]
  · rintro ⟨a, ha, ⟨s, hs⟩ | ⟨b, hb, hne, hrange⟩⟩
    · exact (isFinite_iff _).mpr ⟨0, value_div_of_infinite ha hs⟩
    · obtain ⟨c, hc⟩ := exists_round_eq_coe_iff.mpr hrange
      exact (isFinite_iff _).mpr ⟨c, by rw [value_div_coe ha hb hne, hc]⟩

theorem isFinite_div_pos_iff (x y : Float) :
    ((x / y).isFinite = true ∧ 0.0 < x / y) ↔ PositiveQuotient x y := by
  have hpos_iff {a b : ℝ} (ha : value x = some (a : EReal)) (hb : value y = some (b : EReal))
      (hne : b ≠ 0) : 0.0 < x / y ↔ underflowBound < a / b := by
    rw [lt_iff_of_value value_decimal_zero (value_div_coe ha hb hne), EReal.coe_zero,
      round_pos_iff]
  rw [isFinite_div_iff]
  constructor
  · rintro ⟨⟨a, ha, ⟨s, hs⟩ | ⟨b, hb, hne, hrange⟩⟩, hpos⟩
    · rw [lt_iff_of_value value_decimal_zero (value_div_of_infinite ha hs)] at hpos
      exact absurd hpos (lt_irrefl 0)
    · exact ⟨a, b, ha, hb, (hpos_iff ha hb hne).mp hpos, (abs_lt.mp hrange).2⟩
  · rintro ⟨a, b, ha, hb, hlow, hhigh⟩
    have hpos := underflowBound_pos.trans hlow
    have hne : b ≠ 0 := by
      rintro rfl
      exact absurd hpos (by rw [div_zero]; exact lt_irrefl 0)
    exact ⟨⟨a, ha, .inr ⟨b, hb, hne, by rwa [abs_of_pos hpos]⟩⟩, (hpos_iff ha hb hne).mpr hlow⟩

end SatNav.Binary64
