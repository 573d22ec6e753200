import SatNav.Proofs.Binary64.Differences

/-!
# Sums of equal doubles

`steadySum p a n` is what `a` accumulates to when `p` is added `n` times, with a rounding at every
step. It is exact as far as the multiples of `p` are doubles, `ExactMultiples`; those up to the
second one are unless they are too large.
-/

namespace SatNav.Binary64

/-- What `a` accumulates to when `p` is added to it `n` times. -/
noncomputable def steadySum (p : EReal) : EReal → ℕ → EReal
  | a, 0 => a
  | a, n + 1 => steadySum p (round (a + p)) n

variable {p a : EReal}

@[simp] theorem steadySum_zero (p a : EReal) : steadySum p a 0 = a := rfl

theorem steadySum_succ (p a : EReal) (n : ℕ) :
    steadySum p a (n + 1) = steadySum p (round (a + p)) n := rfl

theorem round_add_nonneg (ha : 0 ≤ a) (hp : 0 ≤ p) : 0 ≤ round (a + p) := by
  rw [← round_zero]
  exact round_mono (add_nonneg ha hp)

theorem steadySum_nonneg (ha : 0 ≤ a) (hp : 0 ≤ p) (n : ℕ) : 0 ≤ steadySum p a n := by
  induction n generalizing a with
  | zero => exact ha
  | succ n ih => exact ih (round_add_nonneg ha hp)

theorem steadySum_top (ha : a ≠ ⊥) (n : ℕ) : steadySum ⊤ a (n + 1) = ⊤ := by
  induction n generalizing a with
  | zero => rw [steadySum_succ, EReal.add_top_of_ne_bot ha, round_top, steadySum_zero]
  | succ n ih =>
    rw [steadySum_succ, EReal.add_top_of_ne_bot ha, round_top]
    exact ih bot_ne_top.symm

/-- The running sum of terms that are all `p`. -/
theorem value_foldl_add {ι : Type} {g : ι → Float} {l : List ι} (hp : 0 ≤ p)
    (hl : ∀ i ∈ l, value (g i) = some p) {x : Float} (hx : value x = some a) (ha : 0 ≤ a) :
    value (l.foldl (fun sum i => sum + g i) x) = some (steadySum p a l.length) := by
  induction l generalizing x a with
  | nil => exact hx
  | cons i l ih =>
    -- nothing is negative, so no infinities of both signs meet
    have hne {b : EReal} (hb : 0 ≤ b) : b ≠ ⊥ := (EReal.bot_lt_zero.trans_le hb).ne'
    have hsum : value (x + g i) = some (round (a + p)) :=
      value_add hx (hl i List.mem_cons_self) (.inl (hne ha)) (.inr (hne hp))
    exact ih (fun j hj => hl j (List.mem_cons_of_mem i hj)) hsum (round_add_nonneg ha hp)

/-! ### Exact sums -/

/-- The multiples of a double up to the `n`th are doubles. -/
def ExactMultiples (x : Float) (n : ℕ) : Prop :=
  ∃ r : ℝ, value x = some (r : EReal) ∧ ∀ k : ℕ, k ≤ n → Representable (k * r)

/-- Where the multiples are doubles nothing is rounded. -/
theorem steadySum_eq_mul {r : ℝ} {j n : ℕ} (h : ∀ k : ℕ, k ≤ j + n → Representable (k * r)) :
    steadySum r ((j * r : ℝ) : EReal) n = (((j + n : ℕ) * r : ℝ) : EReal) := by
  induction n generalizing j with
  | zero => rfl
  | succ n ih =>
    have hnext : ((j * r : ℝ) : EReal) + r = (((j + 1 : ℕ) * r : ℝ) : EReal) := by
      rw [← EReal.coe_add, Nat.cast_succ, add_one_mul]
    rw [steadySum_succ, hnext, (h (j + 1) (by omega)).round, ih fun k hk => h k (by omega),
      Nat.succ_add_eq_add_succ]

theorem steadySum_of_exactMultiples {r : ℝ} {n : ℕ} (h : ∀ k : ℕ, k ≤ n → Representable (k * r)) :
    steadySum r 0 n = ((n * r : ℝ) : EReal) := by
  have hsum := steadySum_eq_mul (j := 0) (n := n) (r := r) (by simpa using h)
  simpa using hsum

/-- Twice a double is a double unless it is too large. -/
theorem Representable.twice {r : ℝ} (h : Representable r) (hlimit : |2 * r| < limit) :
    Representable (2 * r) := by
  obtain ⟨-, m, e, hm, he, heq⟩ := h
  refine ⟨hlimit, m, e + 1, hm, by omega, ?_⟩
  rw [abs_mul, heq, abs_two, zpow_add_one₀ (by norm_num)]
  ring

/-- One or two equal numbers are added without rounding unless the sum is too large. -/
theorem exactMultiples_of_le_two {x : Float} {r s : ℝ} {n : ℕ} (hx : value x = some (r : EReal))
    (hn : n ≤ 2) (hsum : steadySum r 0 n = s) : ExactMultiples x n := by
  have hr := representable_of_value hx
  have htwice (h : n = 2) : |2 * r| < limit := by
    subst h
    have hround : round ((2 * r : ℝ) : EReal) = s := by
      rw [two_mul, EReal.coe_add]
      rwa [steadySum_succ, steadySum_succ, zero_add, hr.round] at hsum
    exact (exists_round_eq_coe_iff.mp ⟨s, hround⟩).trans overflowBound_lt_limit
  refine ⟨r, hx, fun k hk => ?_⟩
  rcases (by omega : k = 0 ∨ k = 1 ∨ k = 2 ∧ n = 2) with rfl | rfl | ⟨rfl, h⟩
  · simpa using representable_zero
  · simpa using hr
  · exact_mod_cast hr.twice (htwice h)

/-- The multiples of a whole number are exact while they have no more than 53 bits. -/
theorem exactMultiples_of_natCast {x : Float} {m n : ℕ} (hx : value x = some ((m : ℝ) : EReal))
    (h : n * m < 2 ^ 53) : ExactMultiples x n := by
  refine ⟨m, hx, fun k hk => ?_⟩
  have hbits : k * m < 2 ^ 53 := (Nat.mul_le_mul_right m hk).trans_lt h
  have hwhole : Representable (((k * m : ℕ) : ℤ) : ℝ) :=
    representable_intCast (by exact_mod_cast hbits)
  simpa using hwhole

end SatNav.Binary64
