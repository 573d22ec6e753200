import SatNav.Proofs.Binary64.WholeNumbers

/-!
# How far rounding is off

A number is at most one unit of the last place away from the double that it is rounded to.
For numbers up to `2 ^ 11`, twice the code period, this is less than `slack`, and sums and
products are tracked with it: `Near x r e` says that the double `x` is finite and no further
than `e` from the real number `r`.
-/

namespace SatNav.Binary64

theorem abs_nearestEven_sub_le (q : ℝ) : |(nearestEven q : ℝ) - q| ≤ 1 := by
  have hlow : ((⌊q⌋ : ℤ) : ℝ) ≤ nearestEven q := by
    exact_mod_cast floor_le_nearestEven q
  have hhigh : (nearestEven q : ℝ) ≤ ⌊q⌋ + 1 := by
    exact_mod_cast nearestEven_le_floor_add_one q
  rw [abs_le]
  constructor
  · linarith [Int.lt_floor_add_one q]
  · linarith [Int.floor_le q]

theorem abs_roundMagnitude_sub_le (v : ℝ) : |roundMagnitude v - v| ≤ 2 ^ lastPlace v := by
  have hunit : (0 : ℝ) < 2 ^ lastPlace v := zpow_pos (by norm_num) _
  have hsub : roundMagnitude v - v =
      (nearestEven (v / 2 ^ lastPlace v) - v / 2 ^ lastPlace v) * 2 ^ lastPlace v := by
    rw [roundMagnitude, significand, sub_mul, div_mul_cancel₀ _ hunit.ne']
  rw [hsub, abs_mul, abs_of_pos hunit]
  exact mul_le_of_le_one_left hunit.le (abs_nearestEven_sub_le _)

theorem abs_roundReal_sub_le (r : ℝ) : |roundReal r - r| ≤ 2 ^ lastPlace |r| := by
  rcases le_or_gt 0 r with hr | hr
  · rw [roundReal_of_nonneg hr, abs_of_nonneg hr]
    exact abs_roundMagnitude_sub_le r
  · have := abs_roundMagnitude_sub_le (-r)
    rw [roundReal, if_neg hr.not_ge, abs_of_neg hr, ← abs_neg, neg_sub', neg_neg]
    exact this

/-- What one rounding is off by at most, up to twice the code period. -/
noncomputable def slack : ℝ := ((2 ^ 40 : ℕ) : ℝ)⁻¹

theorem slack_eq : slack = 2 ^ (-40 : ℤ) := by
  norm_num [slack, zpow_neg]

theorem slack_pos : 0 < slack := slack_eq ▸ zpow_pos (by norm_num) _

theorem slack_lt : slack < 1 / 1000 := by
  norm_num [slack]

theorem abs_roundReal_sub_le_slack {r : ℝ} (h : |r| ≤ 2 ^ 11) : |roundReal r - r| ≤ slack := by
  rcases eq_or_ne r 0 with rfl | hr
  · simpa [roundReal_of_nonneg] using slack_pos.le
  · rw [slack_eq]
    refine (abs_roundReal_sub_le r).trans (zpow_le_zpow_right₀ (by norm_num) ?_)
    refine lastPlace_le (abs_pos.mpr hr) (by norm_num) (h.trans_lt ?_)
    norm_num

/-- The double is finite and within `e` of the real number. -/
def Near (x : Float) (r e : ℝ) : Prop := ∃ v : ℝ, value x = some (v : EReal) ∧ |v - r| ≤ e

theorem near_of_value {x : Float} {r : ℝ} (hx : value x = some (r : EReal)) : Near x r 0 :=
  ⟨r, hx, by rw [sub_self, abs_zero]⟩

theorem near_of_round {x : Float} {r : ℝ} (hx : value x = some (round r)) (h : |r| ≤ 2 ^ 11) :
    Near x r slack := by
  have herror := abs_roundReal_sub_le_slack h
  have hlimit : |roundReal r| < limit := by
    calc |roundReal r| ≤ |r| + |roundReal r - r| := by
          linarith [abs_sub_abs_le_abs_sub (roundReal r) r]
      _ < 2 ^ (12 : ℤ) := by
        norm_num at h ⊢
        linarith [slack_lt]
      _ < limit := zpow_lt_limit (by norm_num)
  rw [round_coe, overflow_of_abs_lt hlimit] at hx
  exact ⟨_, hx, herror⟩

namespace Near

variable {x y : Float} {a b d e : ℝ}

theorem add (hx : Near x a d) (hy : Near y b e) (h : |a + b| + (d + e) ≤ 2 ^ 11) :
    Near (x + y) (a + b) (d + e + slack) := by
  obtain ⟨u, hu, hua⟩ := hx
  obtain ⟨v, hv, hvb⟩ := hy
  have hoff : |u + v - (a + b)| ≤ d + e :=
    calc |u + v - (a + b)| = |u - a + (v - b)| := by ring_nf
      _ ≤ d + e := (abs_add_le _ _).trans (add_le_add hua hvb)
  have hsum : |u + v| ≤ 2 ^ 11 := by
    linarith [abs_sub_abs_le_abs_sub (u + v) (a + b)]
  obtain ⟨w, hw, hwuv⟩ := near_of_round (value_add_coe hu hv) hsum
  refine ⟨w, hw, ?_⟩
  calc |w - (a + b)| ≤ |w - (u + v)| + |u + v - (a + b)| := abs_sub_le _ _ _
    _ ≤ d + e + slack := by linarith

theorem neg (hx : Near x a d) : Near (-x) (-a) d := by
  obtain ⟨u, hu, hua⟩ := hx
  refine ⟨-u, by rw [value_neg, hu]; rfl, ?_⟩
  rwa [neg_sub_neg, abs_sub_comm]

theorem sub (hx : Near x a d) (hy : Near y b e) (h : |a - b| + (d + e) ≤ 2 ^ 11) :
    Near (x - y) (a - b) (d + e + slack) := by
  rw [sub_eq_add, sub_eq_add_neg]
  rw [sub_eq_add_neg] at h
  exact hx.add hy.neg h

end Near

/-! ### Quotients -/

theorem round_nonneg {r : ℝ} (h : 0 ≤ r) : 0 ≤ round (r : EReal) := by
  have hzero : round ((0 : ℝ) : EReal) = 0 := by
    simpa using round_natCast (n := 0) (by norm_num)
  rw [← hzero]
  exact round_mono (by exact_mod_cast h)

theorem eq_of_round_eq {r q : ℝ} (h : round (r : EReal) = (q : EReal)) : roundReal r = q := by
  rw [round_coe, overflow] at h
  split at h
  · exact absurd h (by simp)
  · split at h
    · exact absurd h (by simp)
    · exact_mod_cast h

theorem zpow_lastPlace_le_of_nonneg {v : ℝ} (hv : 0 ≤ v) :
    (2 : ℝ) ^ lastPlace v ≤ (v + 1) * 2 ^ (-52 : ℤ) := by
  have hunit : (0 : ℝ) < 2 ^ (-52 : ℤ) := zpow_pos (by norm_num) _
  have hone : (2 : ℝ) ^ (-52 : ℤ) ≤ (v + 1) * 2 ^ (-52 : ℤ) :=
    le_mul_of_one_le_left hunit.le (by linarith)
  rcases hv.eq_or_lt with rfl | hpos
  · refine le_trans (zpow_le_zpow_right₀ (by norm_num) (max_le ?_ (by norm_num))) hone
    simp
  rcases max_cases (Int.log 2 v - 52) (-1074) with ⟨hmax, -⟩ | ⟨hmax, -⟩
  · have hlog : (2 : ℝ) ^ Int.log 2 v ≤ v := by
      exact_mod_cast Int.zpow_log_le_self (b := 2) (by norm_num) hpos
    rw [lastPlace, hmax, sub_eq_add_neg, zpow_add₀ (by norm_num)]
    gcongr
    linarith
  · rw [lastPlace, hmax]
    exact le_trans (zpow_le_zpow_right₀ (by norm_num) (by norm_num)) hone

/-- A quotient by a number up to one, multiplied again, is near the dividend. -/
theorem abs_quotient_mul_sub_le {x y : Float} {d s q : ℝ} (hx : value x = some (d : EReal))
    (hy : value y = some (s : EReal)) (hd : 0 ≤ d) (hle : d + 1 ≤ 2 ^ 11) (hs : 0 < s)
    (hone : s ≤ 1) (hq : value (x / y) = some (q : EReal)) : |q * s - d| ≤ slack := by
  have hround : round ((d / s : ℝ) : EReal) = (q : EReal) :=
    Option.some.inj ((value_div_coe hx hy hs.ne').symm.trans hq)
  have hquotient : 0 ≤ d / s := by positivity
  have herror : |q - d / s| ≤ (d / s + 1) * 2 ^ (-52 : ℤ) := by
    have := abs_roundReal_sub_le (d / s)
    rw [eq_of_round_eq hround, abs_of_nonneg hquotient] at this
    exact this.trans (zpow_lastPlace_le_of_nonneg hquotient)
  have hmul : q * s - d = (q - d / s) * s := by
    rw [sub_mul, div_mul_cancel₀ _ hs.ne']
  calc |q * s - d| = |q - d / s| * s := by rw [hmul, abs_mul, abs_of_pos hs]
    _ ≤ (d / s + 1) * 2 ^ (-52 : ℤ) * s := by gcongr
    _ = (d + s) * 2 ^ (-52 : ℤ) := by
      rw [mul_right_comm, add_mul, div_mul_cancel₀ _ hs.ne', one_mul]
    _ ≤ 2 ^ 11 * 2 ^ (-52 : ℤ) := by
      gcongr
      linarith
    _ ≤ slack := by norm_num [slack_eq, zpow_neg]

end SatNav.Binary64
