import SatNav.Proofs.Binary64.Nearest

/-!
# The ends of the range of doubles

A positive number is lost in rounding when it is at most half of the smallest double, and
it becomes infinite from half a unit above the largest double on. Both bounds are ties, and
ties go to zero and to infinity.
-/

namespace SatNav.Binary64

/-- Up to this number everything is rounded down to zero. -/
noncomputable def underflowBound : ℝ := (2 : ℕ) ^ (-1075 : ℤ)

/-- From this number on everything is rounded up to infinity. -/
noncomputable def overflowBound : ℝ := (2 ^ 54 - 1 : ℕ) * (2 : ℕ) ^ (970 : ℤ)

theorem underflowBound_eq : underflowBound = 2 ^ (-1075 : ℤ) := rfl

theorem overflowBound_eq : overflowBound = (2 ^ 53 - 1 / 2) * 2 ^ (971 : ℤ) := by
  have hlast : (2 : ℝ) ^ (971 : ℤ) = 2 ^ (970 : ℤ) * 2 := zpow_add_one₀ (by norm_num) 970
  have hcast : ((2 ^ 54 - 1 : ℕ) : ℝ) = 2 ^ 54 - 1 := by norm_num
  rw [overflowBound, hcast, Nat.cast_ofNat, hlast]
  ring

theorem underflowBound_pos : 0 < underflowBound := zpow_pos (by norm_num) _

theorem overflowBound_pos : 0 < overflowBound := by
  rw [overflowBound_eq]
  exact mul_pos (by norm_num) (zpow_pos (by norm_num) _)

/-! ### Ties -/

theorem nearestEven_half : nearestEven (1 / 2) = 0 := by
  norm_num [nearestEven]

theorem one_le_nearestEven {q : ℝ} (h : 1 / 2 < q) : 1 ≤ nearestEven q := by
  rcases le_or_gt 1 q with hone | hone
  · exact le_nearestEven (by exact_mod_cast hone)
  · have hfloor : ⌊q⌋ = 0 := Int.floor_eq_zero_iff.mpr ⟨by linarith, hone⟩
    have hfract : Int.fract q = q := by rw [Int.fract, hfloor, Int.cast_zero, sub_zero]
    rw [nearestEven, hfract, hfloor, if_neg h.not_gt, if_neg h.ne', zero_add]

/-- Below the tie with the next one, a number is not rounded up. -/
theorem nearestEven_le_of_lt {n : ℤ} {q : ℝ} (h : q < n + 1 / 2) : nearestEven q ≤ n := by
  have hfloor : ⌊q⌋ ≤ n := by
    rw [← Int.lt_add_one_iff, Int.floor_lt]
    push_cast
    linarith
  rcases hfloor.lt_or_eq with hlt | heq
  · exact (nearestEven_le_floor_add_one q).trans hlt
  · have hfract : Int.fract q < 1 / 2 := by
      rw [Int.fract, heq]
      linarith
    rw [nearestEven, if_pos hfract, heq]

/-- Halfway above an odd number, a number is rounded up. -/
theorem nearestEven_add_half {n : ℤ} (h : n % 2 = 1) : nearestEven (n + 1 / 2) = n + 1 := by
  have hfloor : ⌊(n + 1 / 2 : ℝ)⌋ = n := by
    rw [Int.floor_intCast_add]
    norm_num
  have hfract : Int.fract (n + 1 / 2 : ℝ) = 1 / 2 := by
    rw [Int.fract, hfloor]
    ring
  rw [nearestEven, hfract, hfloor, if_neg (lt_irrefl _), if_pos rfl, h]

theorem roundMagnitude_zpow {i : ℤ} (h : -1074 ≤ i) : roundMagnitude (2 ^ i) = 2 ^ i := by
  have := roundMagnitude_of_lt (m := 1) (by norm_num) h
  rwa [Nat.cast_one, one_mul] at this

/-! ### Underflow -/

theorem lastPlace_of_lt {v : ℝ} (hv : 0 < v) (h : v < 2 ^ (-1021 : ℤ)) : lastPlace v = -1074 :=
  le_antisymm (lastPlace_le hv le_rfl h) (neg_le_lastPlace v)

theorem roundMagnitude_underflowBound : roundMagnitude underflowBound = 0 := by
  have hplace : lastPlace underflowBound = -1074 :=
    lastPlace_of_lt underflowBound_pos (zpow_lt_zpow_right₀ (by norm_num) (by norm_num))
  have hhalf : underflowBound / 2 ^ (-1074 : ℤ) = 1 / 2 := by
    rw [underflowBound_eq, ← zpow_sub₀ (by norm_num)]
    norm_num [zpow_neg]
  rw [roundMagnitude, significand, hplace, hhalf, nearestEven_half, Int.cast_zero, zero_mul]

theorem roundMagnitude_pos {v : ℝ} (h : underflowBound < v) : 0 < roundMagnitude v := by
  have hv : 0 < v := underflowBound_pos.trans h
  have hsignificand : 1 ≤ significand v := by
    rcases (neg_le_lastPlace v).lt_or_eq with hplace | hplace
    · exact le_trans (by norm_num) (le_significand hv hplace)
    · refine one_le_nearestEven ?_
      rw [← hplace, lt_div_iff₀ (zpow_pos (by norm_num) _)]
      calc (1 / 2 : ℝ) * 2 ^ (-1074 : ℤ) = 2 ^ (-1 : ℤ) * 2 ^ (-1074 : ℤ) := by
            norm_num [zpow_neg]
        _ = underflowBound := by
            rw [underflowBound_eq, ← zpow_add₀ (by norm_num)]
            norm_num
        _ < v := h
  exact mul_pos (by exact_mod_cast hsignificand) (zpow_pos (by norm_num) _)

/-! ### Overflow -/

theorem lastPlace_of_le {v : ℝ} (hlow : (2 : ℝ) ^ (1023 : ℤ) ≤ v) (hhigh : v < limit) :
    lastPlace v = 971 :=
  le_antisymm (lastPlace_le ((zpow_pos (by norm_num) _).trans_le hlow) (by norm_num) hhigh)
    (le_lastPlace hlow)

theorem limit_eq : limit = 2 ^ 53 * 2 ^ (971 : ℤ) := by
  rw [limit, ← zpow_natCast, ← zpow_add₀ (by norm_num)]
  rfl

theorem overflowBound_lt_limit : overflowBound < limit := by
  rw [limit_eq, overflowBound_eq]
  exact mul_lt_mul_of_pos_right (by norm_num) (zpow_pos (by norm_num) _)

theorem zpow_le_overflowBound : (2 : ℝ) ^ (1023 : ℤ) ≤ overflowBound := by
  calc (2 : ℝ) ^ (1023 : ℤ) = 2 ^ 52 * 2 ^ (971 : ℤ) := by
        rw [← zpow_natCast, ← zpow_add₀ (by norm_num)]
        rfl
    _ ≤ (2 ^ 53 - 1 / 2) * 2 ^ (971 : ℤ) :=
        mul_le_mul_of_nonneg_right (by norm_num) (zpow_nonneg (by norm_num) _)
    _ = overflowBound := overflowBound_eq.symm

theorem roundMagnitude_overflowBound : roundMagnitude overflowBound = limit := by
  have hplace := lastPlace_of_le zpow_le_overflowBound overflowBound_lt_limit
  have htie : overflowBound / 2 ^ (971 : ℤ) = ((2 ^ 53 - 1 : ℤ) : ℝ) + 1 / 2 := by
    rw [overflowBound_eq, mul_div_cancel_right₀ _ (zpow_ne_zero _ (by norm_num))]
    norm_num
  rw [roundMagnitude, significand, hplace, htie, nearestEven_add_half (by norm_num), limit_eq]
  norm_num

theorem roundMagnitude_lt_limit {v : ℝ} (hv : 0 ≤ v) (h : v < overflowBound) :
    roundMagnitude v < limit := by
  rcases le_or_gt ((2 : ℝ) ^ (1023 : ℤ)) v with hlow | hlow
  · have hplace := lastPlace_of_le hlow (h.trans overflowBound_lt_limit)
    have hsignificand : significand v ≤ 2 ^ 53 - 1 := by
      refine nearestEven_le_of_lt ?_
      rw [hplace, div_lt_iff₀ (zpow_pos (by norm_num) _)]
      refine h.trans_eq ?_
      rw [overflowBound_eq]
      push_cast
      ring
    calc roundMagnitude v = significand v * 2 ^ (971 : ℤ) := by rw [roundMagnitude, hplace]
      _ ≤ (2 ^ 53 - 1 : ℤ) * 2 ^ (971 : ℤ) :=
        mul_le_mul_of_nonneg_right (by exact_mod_cast hsignificand) (zpow_nonneg (by norm_num) _)
      _ ≤ (2 ^ 53 - 1 / 2) * 2 ^ (971 : ℤ) :=
        mul_le_mul_of_nonneg_right (by norm_num) (zpow_nonneg (by norm_num) _)
      _ = overflowBound := overflowBound_eq.symm
      _ < limit := overflowBound_lt_limit
  · calc roundMagnitude v ≤ roundMagnitude (2 ^ (1023 : ℤ)) := roundMagnitude_mono hv hlow.le
      _ = 2 ^ (1023 : ℤ) := roundMagnitude_zpow (by norm_num)
      _ < limit := zpow_lt_limit (by norm_num)

/-! ### Both ends -/

theorem round_underflowBound : round (underflowBound : EReal) = 0 := by
  rw [round_coe, roundReal_of_nonneg underflowBound_pos.le, roundMagnitude_underflowBound,
    overflow_of_abs_lt (by rw [abs_zero]; exact limit_pos), EReal.coe_zero]

theorem round_overflowBound : round (overflowBound : EReal) = ⊤ := by
  rw [round_coe, roundReal_of_nonneg overflowBound_pos.le, roundMagnitude_overflowBound,
    overflow, if_pos le_rfl]

theorem round_pos_iff {r : ℝ} : 0 < round (r : EReal) ↔ underflowBound < r := by
  constructor
  · intro hpos
    by_contra hle
    have hmono := round_mono (EReal.coe_le_coe_iff.mpr (not_lt.mp hle))
    rw [round_underflowBound] at hmono
    exact hpos.not_ge hmono
  · intro hlow
    have hmagnitude := roundMagnitude_pos hlow
    rw [round_coe, roundReal_of_nonneg (underflowBound_pos.trans hlow).le, overflow]
    split
    · exact EReal.zero_lt_top
    · rw [if_neg (by linarith [limit_pos])]
      exact EReal.coe_pos.mpr hmagnitude

theorem round_lt_top_iff {r : ℝ} : round (r : EReal) < ⊤ ↔ r < overflowBound := by
  constructor
  · intro htop
    by_contra hle
    have hmono := round_mono (EReal.coe_le_coe_iff.mpr (not_lt.mp hle))
    rw [round_overflowBound] at hmono
    exact htop.not_ge hmono
  · intro hhigh
    have hmono := round_mono (EReal.coe_le_coe_iff.mpr (le_max_left r 0))
    refine hmono.trans_lt ?_
    have hlimit := roundMagnitude_lt_limit (le_max_right r 0) (max_lt hhigh overflowBound_pos)
    rw [round_coe, roundReal_of_nonneg (le_max_right r 0), overflow_of_abs_lt]
    · exact EReal.coe_lt_top _
    · rwa [abs_of_nonneg (roundMagnitude_nonneg (le_max_right r 0))]

/-- What is not too large in either direction is rounded to a real number. -/
theorem exists_round_eq_coe_iff {r : ℝ} :
    (∃ c : ℝ, round (r : EReal) = c) ↔ |r| < overflowBound := by
  have hbot : ⊥ < round (r : EReal) ↔ -r < overflowBound := by
    rw [← round_lt_top_iff, EReal.coe_neg, round_neg, ← EReal.neg_bot, EReal.neg_lt_neg_iff]
  rw [abs_lt, neg_lt, ← hbot, ← round_lt_top_iff]
  constructor
  · rintro ⟨c, hc⟩
    rw [hc]
    exact ⟨EReal.bot_lt_coe c, EReal.coe_lt_top c⟩
  · rintro ⟨hbot, htop⟩
    exact ⟨_, (EReal.coe_toReal htop.ne hbot.ne').symm⟩

end SatNav.Binary64
