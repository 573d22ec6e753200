import Mathlib.Algebra.Order.BigOperators.Group.List
import SatNav.Channel.Lock
import SatNav.Proofs.Exact.Reals

/-!
# Sums and means over runs of correlations

In exact arithmetic the sum that a detector accumulates is the sum of a list, so neither the order
of a run nor the way in which it is accumulated matters. `varianceOver` is the mean square of what
is left of a value after its mean; it is the mean square less the square of the mean.
-/

namespace SatNav

/-- Variance of `f` over a run. -/
def varianceOver {R : Type} [Scalar R] (f : Correlation R → R) (prompts : List (Correlation R)) :
    R :=
  meanOver (fun c => Scalar.square (f c - meanOver f prompts)) prompts

theorem sumOver_map {R : Type} [Scalar R] (f : Correlation R → R)
    (g : Correlation R → Correlation R) (prompts : List (Correlation R)) :
    sumOver f (prompts.map g) = sumOver (fun c => f (g c)) prompts :=
  List.foldl_map

theorem meanOver_map {R : Type} [Scalar R] (f : Correlation R → R)
    (g : Correlation R → Correlation R) (prompts : List (Correlation R)) :
    meanOver f (prompts.map g) = meanOver (fun c => f (g c)) prompts := by
  rw [meanOver, sumOver_map, List.length_map, meanOver]

open Exact

variable {f g : Correlation ℝ → ℝ} {prompts others : List (Correlation ℝ)}

theorem sumOver_real (f : Correlation ℝ → ℝ) (prompts : List (Correlation ℝ)) :
    sumOver f prompts = (prompts.map f).sum := by
  rw [List.sum_eq_foldl, List.foldl_map]
  exact congrArg (fun zero => prompts.foldl (fun sum c => sum + f c) zero) zero_real

theorem meanOver_real (f : Correlation ℝ → ℝ) (prompts : List (Correlation ℝ)) :
    meanOver f prompts = (prompts.map f).sum / prompts.length := by
  rw [← sumOver_real, ← Scalar.ofCount_real]
  rfl

theorem varianceOver_real (f : Correlation ℝ → ℝ) (prompts : List (Correlation ℝ)) :
    varianceOver f prompts = meanOver (fun c => (f c - meanOver f prompts) ^ 2) prompts :=
  congrArg (fun h => meanOver h prompts) (funext fun _ => (sq _).symm)

theorem length_real_ne_zero (h : prompts ≠ []) : (prompts.length : ℝ) ≠ 0 := by
  simpa using h

/-! ### Laws of the mean -/

theorem meanOver_perm (f : Correlation ℝ → ℝ) (h : prompts.Perm others) :
    meanOver f others = meanOver f prompts := by
  rw [meanOver_real, meanOver_real, (h.map f).sum_eq, h.length_eq]

theorem meanOver_congr (h : ∀ c ∈ prompts, f c = g c) :
    meanOver f prompts = meanOver g prompts := by
  rw [meanOver_real, meanOver_real, List.map_congr_left h]

theorem meanOver_add (f g : Correlation ℝ → ℝ) (prompts : List (Correlation ℝ)) :
    meanOver (fun c => f c + g c) prompts = meanOver f prompts + meanOver g prompts := by
  rw [meanOver_real, meanOver_real, meanOver_real, List.sum_map_add, add_div]

theorem meanOver_mul_left (a : ℝ) (f : Correlation ℝ → ℝ) (prompts : List (Correlation ℝ)) :
    meanOver (fun c => a * f c) prompts = a * meanOver f prompts := by
  rw [meanOver_real, meanOver_real, List.sum_map_mul_left, mul_div_assoc]

theorem meanOver_const (a : ℝ) (h : prompts ≠ []) : meanOver (fun _ => a) prompts = a := by
  rw [meanOver_real, List.map_const', List.sum_replicate, nsmul_eq_mul,
    mul_div_cancel_left₀ a (length_real_ne_zero h)]

theorem meanOver_nonneg (hf : ∀ c ∈ prompts, 0 ≤ f c) : 0 ≤ meanOver f prompts := by
  rw [meanOver_real]
  exact div_nonneg (List.sum_nonneg (List.forall_mem_map.mpr hf)) (Nat.cast_nonneg _)

/-- The mean of what is not negative is zero only if all of it is. -/
theorem meanOver_eq_zero_iff (h : prompts ≠ []) (hf : ∀ c ∈ prompts, 0 ≤ f c) :
    meanOver f prompts = 0 ↔ ∀ c ∈ prompts, f c = 0 := by
  constructor
  · intro hmean
    rw [meanOver_real, div_eq_zero_iff, or_iff_left (length_real_ne_zero h)] at hmean
    exact List.forall_mem_map.mp fun x hx =>
      List.all_zero_of_le_zero_le_of_sum_eq_zero (List.forall_mem_map.mpr hf) hmean hx
  · intro hzero
    rw [meanOver_congr hzero, meanOver_const 0 h]

/-! ### Variance -/

theorem varianceOver_nonneg (f : Correlation ℝ → ℝ) (prompts : List (Correlation ℝ)) :
    0 ≤ varianceOver f prompts := by
  rw [varianceOver_real]
  exact meanOver_nonneg fun _ _ => sq_nonneg _

theorem varianceOver_eq (f : Correlation ℝ → ℝ) (h : prompts ≠ []) :
    varianceOver f prompts = meanOver (fun c => f c ^ 2) prompts - meanOver f prompts ^ 2 := by
  set m := meanOver f prompts with hm
  have hsquare (c : Correlation ℝ) : (f c - m) ^ 2 = f c ^ 2 + (-(2 * m) * f c + m ^ 2) := by ring
  rw [varianceOver_real, ← hm]
  simp only [hsquare]
  rw [meanOver_add, meanOver_add, meanOver_mul_left, meanOver_const _ h, ← hm]
  ring

/-- A value varies unless it is the same throughout. -/
theorem varianceOver_eq_zero_iff (f : Correlation ℝ → ℝ) (h : prompts ≠ []) :
    varianceOver f prompts = 0 ↔ ∀ c ∈ prompts, ∀ d ∈ prompts, f c = f d := by
  rw [varianceOver_real, meanOver_eq_zero_iff h fun _ _ => sq_nonneg _]
  simp only [sq_eq_zero_iff, sub_eq_zero]
  constructor
  · intro hmean c hc d hd
    rw [hmean c hc, hmean d hd]
  · intro hequal c hc
    rw [meanOver_congr fun d hd => hequal d hd c hc, meanOver_const _ h]

end SatNav
