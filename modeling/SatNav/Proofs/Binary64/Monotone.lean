import SatNav.Proofs.Binary64.WholeNumbers
import SatNav.Proofs.MonotoneArithmetic

/-!
# The rounding of doubles is monotone

Doubles are a `MonotoneArithmetic`: each operation is the exact one on the values and
then `round`, which is monotone, and where a value is missing there is nothing to
compare.
-/

namespace SatNav.Binary64

open Float.Model Float.Model.UnpackedFloat

/-- A number is a double that has a value. -/
theorem le_self_iff (x : Float) : x ≤ x ↔ ∃ a, value x = some a := by
  rw [le_iff]
  constructor
  · rintro ⟨a, -, ha, -, -⟩
    exact ⟨a, ha⟩
  · rintro ⟨a, ha⟩
    exact ⟨a, a, ha, ha, le_refl a⟩

/-- The values of doubles are the numbers that rounding leaves alone. -/
theorem round_value {x : Float} {a : EReal} (hx : value x = some a) : round a = a := by
  induction a with
  | bot => exact round_bot
  | top => exact round_top
  | coe r => exact (representable_of_value hx).round

theorem add_comm_unpacked (u w : UnpackedFloat) :
    UnpackedFloat.add Format.binary64 u w = UnpackedFloat.add Format.binary64 w u := by
  cases u with
  | notANumber => cases w <;> rfl
  | infinity s =>
    cases w with
    | infinity t => cases s <;> cases t <;> rfl
    | _ => rfl
  | zero s =>
    cases w with
    | zero t => cases s <;> cases t <;> rfl
    | _ => rfl
  | finite s m e hm =>
    cases w with
    | finite t n f hn => simp only [UnpackedFloat.add, min_comm e f, Int.add_comm]
    | _ => rfl

theorem comm_add (x y : Float) : x + y = y + x := by
  change Float.ofModel (.pack (UnpackedFloat.add Format.binary64 _ _)) =
    .ofModel (.pack (UnpackedFloat.add Format.binary64 _ _))
  rw [add_comm_unpacked]

theorem eq_notANumber {u : UnpackedFloat} (h : unpackedValue u = none) : u = .notANumber := by
  cases u with
  | notANumber => rfl
  | _ => cases h

/-- A sum that is defined is the rounded sum of two numbers, which are not opposite infinities. -/
theorem value_add_eq_some {x y : Float} {c : EReal} (h : value (x + y) = some c) :
    ∃ a b, value x = some a ∧ value y = some b ∧ c = round (a + b) := by
  change value (.ofModel (.pack (UnpackedFloat.add Format.binary64 x.toModel.unpack
    y.toModel.unpack))) = some c at h
  have hundefined : value (.ofModel (.pack .notANumber)) = none := rfl
  cases hx : value x with
  | none =>
    rw [eq_notANumber hx] at h
    cases hundefined.symm.trans h
  | some a =>
    cases hy : value y with
    | none =>
      rw [eq_notANumber hy, add_comm_unpacked] at h
      cases hundefined.symm.trans h
    | some b =>
      have hopposite : ¬ (a = ⊥ ∧ b = ⊤) ∧ ¬ (a = ⊤ ∧ b = ⊥) := by
        constructor
        · rintro ⟨rfl, rfl⟩
          rw [eq_infinity_negative hx, eq_infinity_positive hy] at h
          cases hundefined.symm.trans h
        · rintro ⟨rfl, rfl⟩
          rw [eq_infinity_positive hx, eq_infinity_negative hy] at h
          cases hundefined.symm.trans h
      have hsum := value_add hx hy (not_and_or.mp hopposite.1) (not_and_or.mp hopposite.2)
      exact ⟨a, b, rfl, rfl, Option.some.inj (h.symm.trans hsum)⟩

/-! ### The laws -/

theorem value_decimal_zero : value 0.0 = some ((0 : ℝ) : EReal) := by
  have : value 0.0 = some (((0 : ℕ) : ℝ) : EReal) := value_literal (n := 0) (by norm_num)
  simpa using this

theorem value_half : value 0.5 = some ((1 / 2 : ℝ) : EReal) := by
  have hvalue : ((5 : ℕ) / 10 : ℝ) = 2 ^ (-1 : ℤ) := by norm_num [zpow_neg]
  have hround := (representable_zpow (e := -1) (by norm_num) (by norm_num)).round
  have := value_tenths 5
  rw [hvalue, hround] at this
  rw [this]
  norm_num [zpow_neg]

theorem value_neg_half : value (-0.5) = some ((-(1 / 2) : ℝ) : EReal) := by
  rw [value_neg, value_half]
  rfl

theorem mono_add {x y c : Float} (h : x ≤ y) (hx : x + c ≤ x + c) (hy : y + c ≤ y + c) :
    x + c ≤ y + c := by
  obtain ⟨a, ha⟩ := (le_self_iff _).mp hx
  obtain ⟨b, hb⟩ := (le_self_iff _).mp hy
  obtain ⟨p, r, hp, hr, rfl⟩ := value_add_eq_some ha
  obtain ⟨q, r', hq, hr', rfl⟩ := value_add_eq_some hb
  obtain rfl : r = r' := Option.some.inj (hr.symm.trans hr')
  rw [le_iff_of_value hp hq] at h
  rw [le_iff_of_value ha hb]
  exact round_mono (add_le_add_left h r)

theorem number_add {x c : Float} (hx : x ≤ x) (hc : c.isFinite) : x + c ≤ x + c := by
  obtain ⟨a, ha⟩ := (le_self_iff x).mp hx
  obtain ⟨r, hr⟩ := (isFinite_iff c).mp hc
  exact (le_self_iff _).mpr
    ⟨_, value_add ha hr (.inr (EReal.coe_ne_top r)) (.inr (EReal.coe_ne_bot r))⟩

theorem value_add_decimal_zero {x : Float} {a : EReal} (hx : value x = some a) :
    value (x + 0.0) = some a := by
  rw [value_add hx value_decimal_zero (.inr (EReal.coe_ne_top 0)) (.inr (EReal.coe_ne_bot 0)),
    EReal.coe_zero, add_zero, round_value hx]

theorem mono_ofInt {i j : ℤ} (h : i ≤ j) : Float.ofInt i ≤ Float.ofInt j := by
  rw [le_iff_of_value (value_ofInt i) (value_ofInt j)]
  exact round_mono (by exact_mod_cast h)

/-- Counts of 64 bits are far from the largest double. -/
theorem exists_value_ofInt {j : ℕ} (hj : j < UInt64.size) :
    ∃ r : ℝ, value (Float.ofInt j) = some (r : EReal) ∧ 0 ≤ r := by
  have hlow : 0 ≤ round ((j : ℝ) : EReal) := by
    rw [← EReal.coe_zero, ← Nat.cast_zero, ← round_natCast (n := 0) (by norm_num)]
    exact round_mono (by exact_mod_cast j.zero_le)
  have hhigh : round ((j : ℝ) : EReal) ≤ ((2 ^ (64 : ℤ) : ℝ) : EReal) := by
    rw [← (representable_zpow (e := 64) (by norm_num) (by norm_num)).round]
    exact round_mono (by exact_mod_cast hj.le)
  have hvalue : value (Float.ofInt j) = some (round ((j : ℝ) : EReal)) := by
    exact_mod_cast value_ofInt j
  have hreal : ∃ r : ℝ, (r : EReal) = round ((j : ℝ) : EReal) :=
    ⟨_, EReal.coe_toReal (hhigh.trans_lt (EReal.coe_lt_top _)).ne
      ((EReal.bot_lt_coe 0).trans_le hlow).ne'⟩
  obtain ⟨r, hr⟩ := hreal
  refine ⟨r, hvalue.trans (congrArg some hr.symm), ?_⟩
  rw [← hr] at hlow
  exact_mod_cast hlow

theorem mono_ofInt_mul {i j : ℕ} {s : Float} (h : i ≤ j) (hj : j < UInt64.size) (hs : s.isFinite)
    (hpos : 0.0 < s) : Float.ofInt i * s ≤ Float.ofInt j * s := by
  obtain ⟨t, ht⟩ := (isFinite_iff s).mp hs
  obtain ⟨a, ha, -⟩ := exists_value_ofInt (h.trans_lt hj)
  obtain ⟨b, hb, -⟩ := exists_value_ofInt hj
  have hab : a ≤ b := by
    have := mono_ofInt (Int.ofNat_le.mpr h)
    rw [le_iff_of_value ha hb] at this
    exact_mod_cast this
  rw [lt_iff_of_value value_decimal_zero ht, EReal.coe_lt_coe_iff] at hpos
  rw [le_iff_of_value (value_mul_coe ha ht) (value_mul_coe hb ht)]
  exact round_mono (by exact_mod_cast mul_le_mul_of_nonneg_right hab hpos.le)

theorem zero_le_zero_mul {s : Float} (hs : s.isFinite) : 0.0 ≤ Float.ofInt (0 : ℕ) * s := by
  obtain ⟨t, ht⟩ := (isFinite_iff s).mp hs
  have hzero : value (Float.ofInt (0 : ℕ)) = some ((0 : ℝ) : EReal) := value_zero
  have hround : round ((0 : ℝ) : EReal) = ((0 : ℝ) : EReal) := by
    simpa using round_natCast (n := 0) (by norm_num)
  rw [le_iff_of_value value_decimal_zero (value_mul_coe hzero ht), zero_mul, hround]

/-- The value of a number that `ceil` has made whole. -/
theorem value_ceil_cases {x : Float} {a : EReal} (hx : value x = some a) :
    (∃ r : ℝ, a = r ∧ value (ceil x) = some (((⌈r⌉ : ℤ) : ℝ) : EReal)) ∨
      ((a = ⊤ ∨ a = ⊥) ∧ value (ceil x) = some a) := by
  induction a with
  | coe r => exact .inl ⟨r, rfl, value_ceil hx⟩
  | top =>
    refine .inr ⟨.inl rfl, ?_⟩
    rw [ceil_of_not_real (by simp [hx]), hx]
  | bot =>
    refine .inr ⟨.inr rfl, ?_⟩
    rw [ceil_of_not_real (by simp [hx]), hx]

theorem mono_ceil {x y : Float} (h : x ≤ y) : ceil x ≤ ceil y := by
  obtain ⟨a, b, ha, hb, hab⟩ := (le_iff x y).mp h
  rcases value_ceil_cases ha with ⟨r, rfl, hx⟩ | ⟨ha', hx⟩
  · rcases value_ceil_cases hb with ⟨q, rfl, hy⟩ | ⟨hb', hy⟩
    · rw [le_iff_of_value hx hy]
      exact_mod_cast Int.ceil_mono (EReal.coe_le_coe_iff.mp hab)
    · obtain rfl : b = ⊤ := hb'.resolve_right (by rintro rfl; simp at hab)
      exact (le_iff_of_value hx hy).mpr le_top
  · rcases ha' with rfl | rfl
    · obtain rfl : b = ⊤ := top_le_iff.mp hab
      rcases value_ceil_cases hb with ⟨q, hq, -⟩ | ⟨-, hy⟩
      · exact absurd hq.symm (EReal.coe_ne_top q)
      · exact (le_iff_of_value hx hy).mpr (le_refl _)
    · rcases value_ceil_cases hb with ⟨q, -, hy⟩ | ⟨-, hy⟩ <;>
        exact (le_iff_of_value hx hy).mpr bot_le

theorem exists_value_ceil_eq_intCast {x : Float} {a : EReal} (ha : value (ceil x) = some a)
    (hbot : a ≠ ⊥) (htop : a ≠ ⊤) : ∃ n : ℤ, a = ((n : ℝ) : EReal) := by
  cases hx : value x with
  | none =>
    rw [ceil_of_not_real (by simp [hx]), hx] at ha
    cases ha
  | some b =>
    rcases value_ceil_cases hx with ⟨r, -, hr⟩ | ⟨hb, hb'⟩
    · exact ⟨⌈r⌉, Option.some.inj (ha.symm.trans hr)⟩
    · obtain rfl : a = b := Option.some.inj (ha.symm.trans hb')
      exact absurd hb (not_or.mpr ⟨htop, hbot⟩)

theorem ceil_eq_ofInt {x : Float} {n : ℕ} (hn : n ≤ UInt64.size) (hlow : 0.0 ≤ ceil x)
    (hhigh : ceil x < Float.ofInt n) :
    toCount (ceil x) < n ∧ ceil x ≤ Float.ofInt (toCount (ceil x)) ∧
      Float.ofInt (toCount (ceil x)) ≤ ceil x := by
  obtain ⟨a, -, ha, -, -⟩ := (lt_iff _ _).mp hhigh
  rw [le_iff_of_value value_decimal_zero ha] at hlow
  rw [lt_iff_of_value ha (value_ofInt n)] at hhigh
  obtain ⟨z, rfl⟩ := exists_value_ceil_eq_intCast ha
    ((EReal.bot_lt_coe 0).trans_le hlow).ne' (hhigh.trans_le le_top).ne
  obtain ⟨m, rfl⟩ := Int.eq_ofNat_of_zero_le (by exact_mod_cast hlow)
  have hm : m < n := by
    by_contra hnot
    refine hhigh.not_ge ?_
    rw [← round_value ha]
    exact round_mono (by exact_mod_cast not_lt.mp hnot)
  have hcount : toCount (ceil x) = m := by
    rw [toCount_of_real ha, Int.cast_natCast, Nat.floor_natCast, min_eq_left]
    omega
  have hvalue : value (Float.ofInt m) = some (((m : ℤ) : ℝ) : EReal) := by
    rw [value_ofInt, round_value ha]
  rw [hcount, le_iff_of_value ha hvalue, le_iff_of_value hvalue ha]
  exact ⟨hm, le_refl _, le_refl _⟩

instance : MonotoneArithmetic Float where
  trans_le {x y z} hxy hyz := by
    obtain ⟨a, b, ha, hb, hab⟩ := (le_iff x y).mp hxy
    obtain ⟨b', c, hb', hc, hbc⟩ := (le_iff y z).mp hyz
    obtain rfl : b = b' := Option.some.inj (hb.symm.trans hb')
    exact (le_iff_of_value ha hc).mpr (hab.trans hbc)
  trans_lt {x y z} hxy hyz := by
    obtain ⟨a, b, ha, hb, hab⟩ := (le_iff x y).mp hxy
    obtain ⟨b', c, hb', hc, hbc⟩ := (lt_iff y z).mp hyz
    obtain rfl : b = b' := Option.some.inj (hb.symm.trans hb')
    exact (lt_iff_of_value ha hc).mpr (hab.trans_lt hbc)
  total_le {x y} hx hy h := by
    obtain ⟨a, ha⟩ := (le_self_iff x).mp hx
    obtain ⟨b, hb⟩ := (le_self_iff y).mp hy
    rw [lt_iff_of_value ha hb, not_lt] at h
    exact (le_iff_of_value hb ha).mpr h
  total_lt {x y} hx hy h := by
    obtain ⟨a, ha⟩ := (le_self_iff x).mp hx
    obtain ⟨b, hb⟩ := (le_self_iff y).mp hy
    rw [le_iff_of_value ha hb, not_le] at h
    exact (lt_iff_of_value hb ha).mpr h
  number_of_isFinite {x} h := by
    obtain ⟨r, hr⟩ := (isFinite_iff x).mp h
    exact (le_self_iff x).mpr ⟨_, hr⟩
  isFinite_zero := (isFinite_iff _).mpr ⟨_, value_decimal_zero⟩
  isFinite_half := (isFinite_iff _).mpr ⟨_, value_half⟩
  isFinite_neg_half := (isFinite_iff _).mpr ⟨_, value_neg_half⟩
  zero_le_half := (le_iff_of_value value_decimal_zero value_half).mpr
    (by exact_mod_cast one_half_pos.le)
  neg_half_le_zero := (le_iff_of_value value_neg_half value_decimal_zero).mpr
    (by exact_mod_cast neg_nonpos.mpr one_half_pos.le)
  sub_half_eq x := sub_eq_add x 0.5
  comm_add := comm_add
  number_add := number_add
  mono_add := mono_add
  add_zero_le {x} h := by
    obtain ⟨a, ha⟩ := (le_self_iff x).mp h
    exact (le_iff_of_value (value_add_decimal_zero ha) ha).mpr (le_refl a)
  le_add_zero {x} h := by
    obtain ⟨a, ha⟩ := (le_self_iff x).mp h
    exact (le_iff_of_value ha (value_add_decimal_zero ha)).mpr (le_refl a)
  mono_ofCount {i j} h := mono_ofInt (i := i) (j := j) (Int.ofNat_le.mpr h)
  mono_ofCount_mul := mono_ofInt_mul
  zero_le_zero_mul := zero_le_zero_mul
  mono_ceil := mono_ceil
  ceil_eq_ofCount := ceil_eq_ofInt

end SatNav.Binary64
