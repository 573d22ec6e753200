import SatNav.Proofs.Binary64.Results

/-!
# Signs and ranges of results

Bounds of numbers carry over to results in two ways. `AtLeast r x` says of a double that it
is not below `r`, and allows it to be infinite or undefined. `InBinades x i j` says that it
is finite, with a magnitude between two powers of two.
-/

namespace SatNav.Binary64

variable {x y : Float}

/-! ### Lower bounds -/

/-- The double is not below `r`, though it may be undefined. -/
def AtLeast (r : ℝ) (x : Float) : Prop := ∀ a, value x = some a → (r : EReal) ≤ a

namespace AtLeast

variable {r q : ℝ}

theorem of_value (hx : value x = some (r : EReal)) : AtLeast r x := by
  intro a ha
  exact (Option.some.inj (hx.symm.trans ha)).le

theorem mono (hx : AtLeast r x) (h : q ≤ r) : AtLeast q x :=
  fun a ha => (EReal.coe_le_coe_iff.mpr h).trans (hx a ha)

/-- There is a least positive double. -/
theorem of_pos (hx : 0.0 < x) : AtLeast (2 ^ (-1074 : ℤ)) x := by
  intro a ha
  rw [lt_iff_of_value value_decimal_zero ha, EReal.coe_zero] at hx
  induction a with
  | bot => simp at hx
  | top => exact le_top
  | coe v =>
    have hv : 0 < v := EReal.coe_pos.mp hx
    obtain ⟨-, m, e, -, he, heq⟩ := representable_of_value ha
    rw [abs_of_pos hv] at heq
    have hm : (1 : ℝ) ≤ m := by
      rcases Nat.eq_zero_or_pos m with rfl | hm
      · simp at heq
        exact absurd heq hv.ne'
      · exact_mod_cast hm
    rw [EReal.coe_le_coe_iff, heq]
    calc (2 : ℝ) ^ (-1074 : ℤ) ≤ 2 ^ e := zpow_le_zpow_right₀ (by norm_num) he
      _ ≤ m * 2 ^ e := le_mul_of_one_le_left (zpow_nonneg (by norm_num) _) hm

theorem nonneg_of_pos (hx : 0.0 < x) : AtLeast 0 x :=
  (of_pos hx).mono (zpow_nonneg (by norm_num) _)

/-- A whole literal. -/
theorem of_literal {n : ℕ} (h : n < 2 ^ 53) :
    AtLeast n (OfScientific.ofScientific (n * 10) true 1) := of_value (value_literal h)

theorem literal_nonneg {n : ℕ} (h : n < 2 ^ 53) :
    AtLeast 0 (OfScientific.ofScientific (n * 10) true 1) := (of_literal h).mono n.cast_nonneg

theorem not_lt (hx : AtLeast 0 x) : ¬ x < 0.0 := by
  intro h
  obtain ⟨a, b, ha, hb, hlt⟩ := (lt_iff x 0.0).mp h
  obtain rfl := Option.some.inj (value_decimal_zero.symm.trans hb)
  exact hlt.not_ge (hx a ha)

theorem not_le (hx : AtLeast r x) (hr : 0 < r) : ¬ x ≤ 0.0 := by
  intro h
  obtain ⟨a, b, ha, hb, hle⟩ := (le_iff x 0.0).mp h
  obtain rfl := Option.some.inj (value_decimal_zero.symm.trans hb)
  exact ((EReal.coe_lt_coe_iff.mpr hr).trans_le (hx a ha)).not_ge hle

theorem add (hx : AtLeast r x) (hy : AtLeast q y) (h : Representable (r + q)) :
    AtLeast (r + q) (x + y) := by
  intro c hc
  obtain ⟨a, b, ha, hb, rfl⟩ := value_add_eq_some hc
  rw [← h.round, EReal.coe_add]
  exact round_mono (add_le_add (hx a ha) (hy b hb))

theorem mul (hx : AtLeast r x) (hy : AtLeast q y) (hr : 0 ≤ r) (hq : 0 ≤ q)
    (h : Representable (r * q)) : AtLeast (r * q) (x * y) := by
  intro c hc
  obtain ⟨a, b, ha, hb, rfl⟩ := value_mul_eq_some hc
  rw [← h.round, EReal.coe_mul]
  exact round_mono (mul_le_mul (hx a ha) (hy b hb) (EReal.coe_nonneg.mpr hq)
    ((EReal.coe_nonneg.mpr hr).trans (hx a ha)))

theorem add_nonneg (hx : AtLeast r x) (hy : AtLeast 0 y) (h : Representable r) :
    AtLeast r (x + y) := by
  have := hx.add hy (by rwa [add_zero])
  rwa [add_zero] at this

theorem mul_nonneg (hx : AtLeast 0 x) (hy : AtLeast 0 y) : AtLeast 0 (x * y) := by
  have := hx.mul hy le_rfl le_rfl (by rw [mul_zero]; exact representable_zero)
  rwa [mul_zero] at this

theorem div (hx : AtLeast 0 x) (hy : AtLeast q y) (hq : 0 < q) : AtLeast 0 (x / y) := by
  intro c hc
  obtain ⟨a, b, ha, hb, ⟨hzero, -⟩ | ⟨-, rfl⟩⟩ := value_div_eq_some hc
  · have hle := hy b hb
    rw [hzero] at hle
    exact absurd (EReal.coe_nonpos.mp hle) hq.not_ge
  · have hb' : 0 ≤ b := (EReal.coe_nonneg.mpr hq.le).trans (hy b hb)
    rw [EReal.coe_zero, ← round_zero]
    exact round_mono (EReal.div_nonneg (hx a ha) hb')

end AtLeast

/-! ### Binades -/

theorem abs_roundReal (r : ℝ) : |roundReal r| = roundMagnitude |r| := by
  rcases le_or_gt 0 r with h | h
  · rw [roundReal_of_nonneg h, abs_of_nonneg h, abs_of_nonneg (roundMagnitude_nonneg h)]
  · rw [roundReal, if_neg h.not_ge, abs_neg, abs_of_neg h,
      abs_of_nonneg (roundMagnitude_nonneg (neg_pos.mpr h).le)]

/-- The double is finite, with a magnitude between two powers of two. -/
def InBinades (x : Float) (i j : ℤ) : Prop :=
  ∃ r : ℝ, value x = some (r : EReal) ∧ ((2 : ℕ) : ℝ) ^ i ≤ |r| ∧ |r| ≤ ((2 : ℕ) : ℝ) ^ j

theorem inBinades_iff {i j : ℤ} :
    InBinades x i j ↔ ∃ r : ℝ, value x = some (r : EReal) ∧ 2 ^ i ≤ |r| ∧ |r| ≤ 2 ^ j := Iff.rfl

namespace InBinades

variable {i j k l m : ℤ}

/-- A literal that is a power of two. -/
theorem of_literal {n : ℕ} (h : n < 2 ^ 53) (hi : (n : ℝ) = 2 ^ i) :
    InBinades (OfScientific.ofScientific (n * 10) true 1) i i := by
  have hpower : |(n : ℝ)| = 2 ^ i := by rw [Nat.abs_cast, hi]
  exact ⟨n, value_literal h, hpower.ge, hpower.le⟩

theorem isFinite (h : InBinades x i j) : x.isFinite = true := by
  obtain ⟨r, hr, -⟩ := h
  exact (isFinite_iff x).mpr ⟨r, hr⟩

theorem ne_zero {r : ℝ} (h : (2 : ℝ) ^ i ≤ |r|) : r ≠ 0 := by
  rintro rfl
  rw [abs_zero] at h
  exact absurd h (zpow_pos (by norm_num) i).not_ge

/-- A number of these binades that is not negative is positive. -/
theorem pos (h : InBinades x i j) (hx : AtLeast 0 x) : 0.0 < x := by
  obtain ⟨r, hr, hlow, -⟩ := inBinades_iff.mp h
  rw [lt_iff_of_value value_decimal_zero hr, EReal.coe_lt_coe_iff]
  exact (EReal.coe_le_coe_iff.mp (hx _ hr)).lt_of_ne' (ne_zero hlow)

/-- Rounding does not leave the binades, where they are not beyond the range of the doubles. -/
theorem of_round {r : ℝ} (hx : value x = some (round (r : EReal))) (hlow : 2 ^ i ≤ |r|)
    (hhigh : |r| ≤ 2 ^ j) (hi : -1074 ≤ i) (hj : j < 1024) : InBinades x i j := by
  have hij : i ≤ j := (zpow_le_zpow_iff_right₀ one_lt_two).mp (hlow.trans hhigh)
  have hlow' : 2 ^ i ≤ |roundReal r| := by
    rw [abs_roundReal, ← roundMagnitude_zpow hi]
    exact roundMagnitude_mono (zpow_nonneg (by norm_num) i) hlow
  have hhigh' : |roundReal r| ≤ 2 ^ j := by
    rw [abs_roundReal, ← roundMagnitude_zpow (hi.trans hij)]
    exact roundMagnitude_mono (abs_nonneg r) hhigh
  rw [round_coe, overflow_of_abs_lt (hhigh'.trans_lt (zpow_lt_limit hj))] at hx
  exact ⟨_, hx, hlow', hhigh'⟩

theorem mul (hx : InBinades x i j) (hy : InBinades y k l) (hlow : -1074 ≤ i + k)
    (hhigh : j + l < 1024) : InBinades (x * y) (i + k) (j + l) := by
  obtain ⟨r, hr, hri, hrj⟩ := inBinades_iff.mp hx
  obtain ⟨q, hq, hqk, hql⟩ := inBinades_iff.mp hy
  refine of_round (value_mul_coe hr hq) ?_ ?_ hlow hhigh
  · rw [zpow_add₀ (by norm_num), abs_mul]
    exact mul_le_mul hri hqk (zpow_nonneg (by norm_num) k) (abs_nonneg r)
  · rw [zpow_add₀ (by norm_num), abs_mul]
    exact mul_le_mul hrj hql (abs_nonneg q) (zpow_nonneg (by norm_num) j)

theorem div (hx : InBinades x i j) (hy : InBinades y k l) (hlow : -1074 ≤ i - l)
    (hhigh : j - k < 1024) : InBinades (x / y) (i - l) (j - k) := by
  obtain ⟨r, hr, hri, hrj⟩ := inBinades_iff.mp hx
  obtain ⟨q, hq, hqk, hql⟩ := inBinades_iff.mp hy
  have hpos : 0 < |q| := abs_pos.mpr (ne_zero hqk)
  refine of_round (value_div_coe hr hq (ne_zero hqk)) ?_ ?_ hlow hhigh
  · rw [zpow_sub₀ (by norm_num), abs_div]
    exact div_le_div₀ (abs_nonneg r) hri hpos hql
  · rw [zpow_sub₀ (by norm_num), abs_div]
    exact div_le_div₀ (zpow_nonneg (by norm_num) j) hrj (zpow_pos (by norm_num) k) hqk

/-- A sum of numbers that are not negative is as large as the first one, and at most one binade
above both. -/
theorem add (hx : InBinades x i j) (hy : InBinades y k l) (hx0 : AtLeast 0 x)
    (hy0 : AtLeast 0 y) (hj : j ≤ m) (hl : l ≤ m) (hlow : -1074 ≤ i) (hhigh : m + 1 < 1024) :
    InBinades (x + y) i (m + 1) := by
  obtain ⟨r, hr, hri, hrj⟩ := inBinades_iff.mp hx
  obtain ⟨q, hq, -, hql⟩ := inBinades_iff.mp hy
  have hr0 : 0 ≤ r := EReal.coe_le_coe_iff.mp (hx0 _ hr)
  have hq0 : 0 ≤ q := EReal.coe_le_coe_iff.mp (hy0 _ hq)
  rw [abs_of_nonneg hr0] at hri hrj
  rw [abs_of_nonneg hq0] at hql
  have hrm : r ≤ 2 ^ m := hrj.trans (zpow_le_zpow_right₀ (by norm_num) hj)
  have hqm : q ≤ 2 ^ m := hql.trans (zpow_le_zpow_right₀ (by norm_num) hl)
  refine of_round (value_add_coe hr hq) ?_ ?_ hlow hhigh
  · rw [abs_of_nonneg (add_nonneg hr0 hq0)]
    linarith
  · rw [abs_of_nonneg (add_nonneg hr0 hq0), zpow_add_one₀ (by norm_num)]
    linarith

end InBinades

end SatNav.Binary64
