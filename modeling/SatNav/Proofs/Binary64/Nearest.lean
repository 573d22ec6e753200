import Mathlib

/-!
# Rounding to binary64

`round` takes a number to the nearest one that binary64 has, ties to even, and what is
too large to an infinity. It is a function of the extended reals and knows nothing of
bits: a magnitude `v` is rounded to whole multiples of `2 ^ lastPlace v`.

What an argument about doubles needs of it is that it is monotone, odd, and leaves the
numbers that binary64 has alone.
-/

namespace SatNav.Binary64

/-! ### Whole numbers -/

/-- The whole number nearest to `q`, the even one of two. -/
noncomputable def nearestEven (q : ℝ) : ℤ :=
  if Int.fract q < 1 / 2 then ⌊q⌋
  else if Int.fract q = 1 / 2 then ⌊q⌋ + ⌊q⌋ % 2
  else ⌊q⌋ + 1

theorem floor_le_nearestEven (q : ℝ) : ⌊q⌋ ≤ nearestEven q := by
  unfold nearestEven
  split
  · exact le_refl _
  · split <;> omega

theorem nearestEven_le_floor_add_one (q : ℝ) : nearestEven q ≤ ⌊q⌋ + 1 := by
  unfold nearestEven
  split
  · omega
  · split <;> omega

@[simp] theorem nearestEven_intCast (n : ℤ) : nearestEven (n : ℝ) = n := by
  simp [nearestEven]

theorem nearestEven_mono : Monotone nearestEven := by
  intro a b hab
  rcases (Int.floor_le_floor hab).lt_or_eq with hfloor | hfloor
  · calc nearestEven a ≤ ⌊a⌋ + 1 := nearestEven_le_floor_add_one a
      _ ≤ ⌊b⌋ := hfloor
      _ ≤ nearestEven b := floor_le_nearestEven b
  · have hfract : Int.fract a ≤ Int.fract b := by
      rw [Int.fract, Int.fract, hfloor]
      linarith
    unfold nearestEven
    rw [hfloor]
    by_cases ha : Int.fract a < 1 / 2
    · rw [if_pos ha]
      split
      · exact le_refl _
      · split <;> omega
    · rw [if_neg ha, if_neg (fun hb => ha (hfract.trans_lt hb))]
      by_cases hb : Int.fract b = 1 / 2
      · have : Int.fract a = 1 / 2 := le_antisymm (hfract.trans_eq hb) (not_lt.mp ha)
        rw [if_pos hb, if_pos this]
      · rw [if_neg hb]
        split <;> omega

theorem le_nearestEven {n : ℤ} {q : ℝ} (h : (n : ℝ) ≤ q) : n ≤ nearestEven q := by
  simpa using nearestEven_mono h

theorem nearestEven_le {n : ℤ} {q : ℝ} (h : q ≤ n) : nearestEven q ≤ n := by
  simpa using nearestEven_mono h

/-! ### Magnitudes -/

/-- The exponent of the last place that a double near `v` has. -/
noncomputable def lastPlace (v : ℝ) : ℤ := max (Int.log 2 v - 52) (-1074)

theorem neg_le_lastPlace (v : ℝ) : -1074 ≤ lastPlace v := le_max_right ..

theorem lastPlace_mono {a b : ℝ} (ha : 0 < a) (h : a ≤ b) : lastPlace a ≤ lastPlace b :=
  max_le_max (sub_le_sub_right (Int.log_mono_right ha h) 52) (le_refl _)

theorem lt_zpow_lastPlace {v : ℝ} : v < 2 ^ (lastPlace v + 53) := by
  have hlog : v < 2 ^ (Int.log 2 v + 1) := Int.lt_zpow_succ_log_self (b := 2) (by norm_num) v
  refine hlog.trans_le (zpow_le_zpow_right₀ (by norm_num) ?_)
  have : Int.log 2 v - 52 ≤ lastPlace v := le_max_left ..
  omega

/-- Above the subnormal numbers a significand has all its bits. -/
theorem zpow_lastPlace_le {v : ℝ} (hv : 0 < v) (h : -1074 < lastPlace v) :
    (2 : ℝ) ^ (lastPlace v + 52) ≤ v := by
  have hplace : lastPlace v = Int.log 2 v - 52 := by
    unfold lastPlace at h ⊢
    omega
  have hlog : (2 : ℝ) ^ Int.log 2 v ≤ v := by
    exact_mod_cast Int.zpow_log_le_self (b := 2) (by norm_num) hv
  rwa [hplace, Int.sub_add_cancel]

theorem lastPlace_le {v : ℝ} (hv : 0 < v) {e : ℤ} (he : -1074 ≤ e) (h : v < 2 ^ (e + 53)) :
    lastPlace v ≤ e := by
  refine max_le ?_ he
  have hlog : (2 : ℝ) ^ Int.log 2 v ≤ v := by
    exact_mod_cast Int.zpow_log_le_self (b := 2) (by norm_num) hv
  have : Int.log 2 v < e + 53 := (zpow_lt_zpow_iff_right₀ (by norm_num)).mp (hlog.trans_lt h)
  omega

theorem le_lastPlace {v : ℝ} {e : ℤ} (h : (2 : ℝ) ^ (e + 52) ≤ v) : e ≤ lastPlace v := by
  have hlog : v < 2 ^ (Int.log 2 v + 1) := Int.lt_zpow_succ_log_self (b := 2) (by norm_num) v
  have : e + 52 < Int.log 2 v + 1 := (zpow_lt_zpow_iff_right₀ (by norm_num)).mp (h.trans_lt hlog)
  have : Int.log 2 v - 52 ≤ lastPlace v := le_max_left ..
  omega

/-- The significand of the double nearest to a magnitude, in units of its last place. -/
noncomputable def significand (v : ℝ) : ℤ := nearestEven (v / 2 ^ lastPlace v)

/-- The magnitude nearest to `v` that a double has, if there were no largest one. -/
noncomputable def roundMagnitude (v : ℝ) : ℝ := significand v * 2 ^ lastPlace v

theorem significand_nonneg {v : ℝ} (hv : 0 ≤ v) : 0 ≤ significand v :=
  le_nearestEven (by exact_mod_cast div_nonneg hv (zpow_nonneg (by norm_num) _))

theorem significand_le (v : ℝ) : significand v ≤ 2 ^ 53 := by
  refine nearestEven_le ?_
  rw [div_le_iff₀ (zpow_pos (by norm_num) _)]
  have := (lt_zpow_lastPlace (v := v)).le
  rw [zpow_add₀ (by norm_num), mul_comm] at this
  exact_mod_cast this

theorem le_significand {v : ℝ} (hv : 0 < v) (h : -1074 < lastPlace v) :
    2 ^ 52 ≤ significand v := by
  refine le_nearestEven ?_
  rw [le_div_iff₀ (zpow_pos (by norm_num) _)]
  have := zpow_lastPlace_le hv h
  rw [zpow_add₀ (by norm_num), mul_comm] at this
  exact_mod_cast this

theorem roundMagnitude_nonneg {v : ℝ} (hv : 0 ≤ v) : 0 ≤ roundMagnitude v :=
  mul_nonneg (by exact_mod_cast significand_nonneg hv) (zpow_nonneg (by norm_num) _)

@[simp] theorem roundMagnitude_zero : roundMagnitude 0 = 0 := by
  have : significand 0 = 0 := by
    simpa [significand] using nearestEven_intCast 0
  rw [roundMagnitude, this, Int.cast_zero, zero_mul]

/-- Within a binade the significands are monotone. From one binade to a higher one, what is rounded
up does not get past the lower end of the higher one. -/
theorem roundMagnitude_mono {a b : ℝ} (ha : 0 ≤ a) (h : a ≤ b) :
    roundMagnitude a ≤ roundMagnitude b := by
  rcases ha.eq_or_lt with rfl | ha
  · rw [roundMagnitude_zero]
    exact roundMagnitude_nonneg h
  rcases (lastPlace_mono ha h).lt_or_eq with hplace | hplace
  · have hlow : (2 : ℝ) ^ 52 ≤ significand b := by
      exact_mod_cast le_significand (ha.trans_le h) ((neg_le_lastPlace a).trans_lt hplace)
    have hhigh : (significand a : ℝ) ≤ 2 ^ 53 := by
      exact_mod_cast significand_le a
    calc roundMagnitude a = significand a * 2 ^ lastPlace a := rfl
      _ ≤ 2 ^ 53 * 2 ^ lastPlace a :=
        mul_le_mul_of_nonneg_right hhigh (zpow_nonneg (by norm_num) _)
      _ = 2 ^ 52 * 2 ^ (lastPlace a + 1) := by
        rw [zpow_add_one₀ (by norm_num)]
        ring
      _ ≤ 2 ^ 52 * 2 ^ lastPlace b :=
        mul_le_mul_of_nonneg_left (zpow_le_zpow_right₀ (by norm_num) hplace) (by norm_num)
      _ ≤ significand b * 2 ^ lastPlace b :=
        mul_le_mul_of_nonneg_right hlow (zpow_nonneg (by norm_num) _)
  · have hpos : (0 : ℝ) < 2 ^ lastPlace b := zpow_pos (by norm_num) _
    have hsignificand : significand a ≤ significand b := by
      unfold significand
      rw [hplace]
      exact nearestEven_mono (div_le_div_of_nonneg_right h hpos.le)
    unfold roundMagnitude
    rw [hplace]
    exact mul_le_mul_of_nonneg_right (by exact_mod_cast hsignificand) hpos.le

/-- A magnitude whose bits fit the significand is not changed. -/
theorem roundMagnitude_of_lt {m : ℕ} {e : ℤ} (hm : m < 2 ^ 53) (he : -1074 ≤ e) :
    roundMagnitude (m * 2 ^ e) = m * 2 ^ e := by
  rcases Nat.eq_zero_or_pos m with rfl | hpos
  · simp
  have hv : (0 : ℝ) < m * 2 ^ e := mul_pos (by exact_mod_cast hpos) (zpow_pos (by norm_num) _)
  have hplace : lastPlace (m * 2 ^ e) ≤ e := by
    refine lastPlace_le hv he ?_
    rw [zpow_add₀ (by norm_num), mul_comm]
    exact mul_lt_mul_of_pos_left (by exact_mod_cast hm) (zpow_pos (by norm_num) _)
  obtain ⟨k, hk⟩ := Int.le.dest hplace
  have hwhole : (m * 2 ^ e : ℝ) / 2 ^ lastPlace (m * 2 ^ e) = ((m * 2 ^ k : ℤ) : ℝ) := by
    rw [div_eq_iff (zpow_ne_zero _ (by norm_num))]
    push_cast
    rw [mul_assoc, ← zpow_natCast, ← zpow_add₀ (by norm_num), add_comm (k : ℤ), hk]
  rw [roundMagnitude, significand, hwhole, nearestEven_intCast, ← hwhole,
    div_mul_cancel₀ _ (zpow_ne_zero _ (by norm_num))]

/-! ### Numbers -/

/-- The number nearest to `r` that a double has, if there were no largest one. -/
noncomputable def roundReal (r : ℝ) : ℝ :=
  if 0 ≤ r then roundMagnitude r else -roundMagnitude (-r)

theorem roundReal_of_nonneg {r : ℝ} (h : 0 ≤ r) : roundReal r = roundMagnitude r := if_pos h

theorem roundReal_neg (r : ℝ) : roundReal (-r) = -roundReal r := by
  unfold roundReal
  rcases lt_trichotomy r 0 with h | rfl | h
  · rw [if_pos (neg_nonneg.mpr h.le), if_neg h.not_ge, neg_neg]
  · simp
  · rw [if_neg (by linarith), if_pos h.le, neg_neg]

theorem roundReal_mono : Monotone roundReal := by
  intro a b h
  rcases le_or_gt 0 a with ha | ha
  · rw [roundReal_of_nonneg ha, roundReal_of_nonneg (ha.trans h)]
    exact roundMagnitude_mono ha h
  · rw [roundReal, if_neg ha.not_ge]
    rcases le_or_gt 0 b with hb | hb
    · rw [roundReal_of_nonneg hb]
      have := roundMagnitude_nonneg (neg_nonneg.mpr ha.le)
      have := roundMagnitude_nonneg hb
      linarith
    · rw [roundReal, if_neg hb.not_ge, neg_le_neg_iff]
      exact roundMagnitude_mono (neg_nonneg.mpr hb.le) (neg_le_neg h)

/-- The magnitude from which on a number is too large. -/
noncomputable def limit : ℝ := 2 ^ (1024 : ℤ)

theorem limit_pos : 0 < limit := zpow_pos (by norm_num) _

theorem zpow_lt_limit {e : ℤ} (h : e < 1024) : (2 : ℝ) ^ e < limit :=
  zpow_lt_zpow_right₀ (by norm_num) h

/-- A number without bounds as one of binary64: what is too large is infinite. -/
noncomputable def overflow (r : ℝ) : EReal :=
  if limit ≤ r then ⊤ else if r ≤ -limit then ⊥ else r

theorem overflow_of_abs_lt {r : ℝ} (h : |r| < limit) : overflow r = r := by
  rw [overflow, if_neg (abs_lt.mp h).2.not_ge, if_neg (abs_lt.mp h).1.not_ge]

theorem abs_lt_of_overflow {r : ℝ} (h : overflow r = r) : |r| < limit := by
  unfold overflow at h
  split at h
  · exact absurd h (by simp)
  · next htop =>
    split at h
    · exact absurd h (by simp)
    · next hbot => exact abs_lt.mpr ⟨not_le.mp hbot, not_le.mp htop⟩

theorem overflow_mono : Monotone overflow := by
  intro a b h
  unfold overflow
  by_cases htop : limit ≤ b
  · rw [if_pos htop]
    exact le_top
  rw [if_neg htop, if_neg (fun ha => htop (ha.trans h))]
  by_cases hbot : a ≤ -limit
  · rw [if_pos hbot]
    exact bot_le
  rw [if_neg hbot, if_neg (fun hb => hbot (h.trans hb))]
  exact_mod_cast h

theorem overflow_neg (r : ℝ) : overflow (-r) = -overflow r := by
  have hpos := limit_pos
  unfold overflow
  by_cases htop : limit ≤ r
  · rw [if_pos htop, if_neg (by linarith), if_pos (by linarith)]
    rfl
  by_cases hbot : r ≤ -limit
  · rw [if_neg htop, if_pos hbot, if_pos (by linarith)]
    rfl
  · rw [if_neg htop, if_neg hbot, if_neg (by linarith), if_neg (by linarith)]
    rfl

/-- The number nearest to `x` that a double has. -/
noncomputable def round (x : EReal) : EReal :=
  if x = ⊤ then ⊤ else if x = ⊥ then ⊥ else overflow (roundReal x.toReal)

@[simp] theorem round_top : round ⊤ = ⊤ := if_pos rfl

@[simp] theorem round_bot : round ⊥ = ⊥ := by
  simp [round]

theorem round_coe (r : ℝ) : round r = overflow (roundReal r) := by
  simp [round]

theorem round_mono : Monotone round := by
  intro x y h
  induction x with
  | bot => simp
  | top =>
    rw [top_le_iff.mp h]
  | coe a =>
    induction y with
    | bot => simp at h
    | top => simp
    | coe b =>
      rw [round_coe, round_coe]
      exact overflow_mono (roundReal_mono (EReal.coe_le_coe_iff.mp h))

theorem round_neg (x : EReal) : round (-x) = -round x := by
  induction x with
  | bot => simp
  | top => simp
  | coe r => rw [← EReal.coe_neg, round_coe, round_coe, roundReal_neg, overflow_neg]

/-- The real numbers that binary64 has. -/
def Representable (r : ℝ) : Prop :=
  |r| < limit ∧ ∃ (m : ℕ) (e : ℤ), m < 2 ^ 53 ∧ -1074 ≤ e ∧ |r| = m * 2 ^ e

theorem Representable.neg {r : ℝ} (h : Representable r) : Representable (-r) := by
  simpa [Representable] using h

theorem Representable.round {r : ℝ} (h : Representable r) : round r = r := by
  obtain ⟨hlt, m, e, hm, he, heq⟩ := h
  have hmagnitude : roundMagnitude |r| = |r| := by
    rw [heq]
    exact roundMagnitude_of_lt hm he
  have hreal : roundReal r = r := by
    rcases le_or_gt 0 r with hr | hr
    · rw [abs_of_nonneg hr] at hmagnitude
      rw [roundReal_of_nonneg hr, hmagnitude]
    · rw [abs_of_neg hr] at hmagnitude
      rw [roundReal, if_neg hr.not_ge, hmagnitude, neg_neg]
  rw [round_coe, hreal, overflow_of_abs_lt hlt]

/-- A magnitude and its number are multiples of the smaller powers of two as well. -/
theorem exists_multiple_of_abs_eq {r : ℝ} {m : ℕ} {e f : ℤ} (h : |r| = m * 2 ^ f) (he : e ≤ f) :
    ∃ n : ℤ, r = n * 2 ^ e := by
  obtain ⟨k, rfl⟩ : ∃ k : ℕ, f = k + e := ⟨(f - e).toNat, by omega⟩
  have habs : |r| = ((m * 2 ^ k : ℕ) : ℝ) * 2 ^ e := by
    rw [h, zpow_add₀ (by norm_num), zpow_natCast]
    push_cast
    ring
  rcases abs_choice r with hr | hr
  · exact ⟨(m * 2 ^ k : ℕ), by rw [← hr, habs, Int.cast_natCast]⟩
  · refine ⟨-(m * 2 ^ k : ℕ), ?_⟩
    rw [← neg_neg r, ← hr, habs, Int.cast_neg, Int.cast_natCast, neg_mul]

/-- Multiples of a unit that differ are a unit apart. -/
theorem le_sub_of_multiples {a b u : ℝ} {m n : ℤ} (hu : 0 < u) (ha : a = m * u) (hb : b = n * u)
    (hab : a < b) : u ≤ b - a := by
  rw [ha, hb, mul_lt_mul_iff_left₀ hu] at hab
  have hstep : m + 1 ≤ n := by exact_mod_cast hab
  have hstep' : (m : ℝ) + 1 ≤ n := by exact_mod_cast hstep
  calc u = ((m : ℝ) + 1) * u - m * u := by ring
    _ ≤ n * u - m * u := sub_le_sub_right (mul_le_mul_of_nonneg_right hstep' hu.le) _
    _ = b - a := by rw [ha, hb]

/-- From `2 ^ (e + 52)` on the numbers of binary64 are multiples of `2 ^ e`. -/
theorem Representable.exists_multiple {r : ℝ} (h : Representable r) {e : ℤ}
    (hr : 2 ^ (e + 52) ≤ |r|) : ∃ n : ℤ, r = n * 2 ^ e := by
  obtain ⟨-, m, f, hm, -, heq⟩ := h
  have hlt : (2 : ℝ) ^ (e + 52) < 2 ^ (f + 53) :=
    calc (2 : ℝ) ^ (e + 52) ≤ m * 2 ^ f := heq ▸ hr
      _ < 2 ^ 53 * 2 ^ f := by
        gcongr
        exact_mod_cast hm
      _ = 2 ^ (f + 53) := by
        rw [zpow_add₀ (by norm_num), mul_comm]
        rfl
  have he : e + 52 < f + 53 := (zpow_lt_zpow_iff_right₀ (by norm_num)).mp hlt
  exact exists_multiple_of_abs_eq heq (by omega)

/-- Whole numbers of 53 bits are numbers of binary64. -/
theorem representable_intCast {n : ℤ} (h : |n| < 2 ^ 53) : Representable n := by
  have habs : |(n : ℝ)| = (n.natAbs : ℝ) := by
    rw [Nat.cast_natAbs, Int.cast_abs]
  have hnat : n.natAbs < 2 ^ 53 := by
    zify
    exact h
  refine ⟨?_, n.natAbs, 0, hnat, by norm_num, ?_⟩
  · rw [habs]
    calc (n.natAbs : ℝ) < 2 ^ (53 : ℤ) := by exact_mod_cast hnat
      _ < limit := zpow_lt_limit (by norm_num)
  · rw [habs, zpow_zero, mul_one]

theorem representable_zpow {e : ℤ} (hlow : -1074 ≤ e) (hhigh : e < 1024) :
    Representable (2 ^ e) := by
  have habs : |(2 : ℝ) ^ e| = 2 ^ e := abs_of_pos (zpow_pos (by norm_num) _)
  refine ⟨?_, 1, e, by norm_num, hlow, ?_⟩
  · rw [habs]
    exact zpow_lt_limit hhigh
  · rw [habs, Nat.cast_one, one_mul]

end SatNav.Binary64
