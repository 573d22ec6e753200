import SatNav.Proofs.Exact.Reals
import SatNav.Channel.Block

/-!
# The carrier of a block

`Oscillator.after` is the oscillator of each sample of a block, `Oscillator.correction` the
factor by which it is renormalised. Over the real numbers an oscillator that starts on the
unit circle stays there, by whatever angle it is turned: the correction is one, and the
oscillator is sine and cosine of a phase that grows evenly.
-/

namespace SatNav

section Recursion

variable {R : Type} [Scalar R]

namespace Oscillator

/-- The factor that pulls an oscillator towards unit magnitude. -/
def correction (o : Oscillator R) : R := (3.0 - o.sin * o.sin - o.cos * o.cos) / 2.0

theorem renormalize_eq (o : Oscillator R) :
    o.renormalize = ⟨o.sin * o.correction, o.cos * o.correction⟩ := rfl

/-- The oscillator after a number of samples. -/
def after (o turn : Oscillator R) : Nat → Oscillator R
  | 0 => o
  | k + 1 => (o.after turn k).advance turn

@[simp] theorem after_zero (o turn : Oscillator R) : o.after turn 0 = o := rfl

theorem after_succ (o turn : Oscillator R) (k : Nat) :
    o.after turn (k + 1) = (o.after turn k).advance turn := rfl

end Oscillator

/-- A block mixes sample `k` with the oscillator after `k` samples. -/
theorem integrate_after (replica : Replica) (start step : R) (o turn : Oscillator R)
    (samples : List Int8) (k : Nat) (arms : Arms R) :
    integrate replica start step turn k (o.after turn k) arms samples =
      (samples.zipIdx k).foldl (fun arms x =>
        arms.add replica (codePhaseAt start step x.2) (o.after turn x.2) x.1) arms := by
  induction samples generalizing k arms with
  | nil => rfl
  | cons x rest ih => rw [integrate_cons, ← Oscillator.after_succ, ih]; rfl

end Recursion

open Exact

namespace Oscillator

theorem rotate_ofPhase (x d : ℝ) : (ofPhase x).rotate (ofPhase d) = ofPhase (x + d) := by
  simp only [rotate, ofPhase, Scalar.sin_real, Scalar.cos_real, Real.sin_add, Real.cos_add]

/-- On the unit circle the correction is one. -/
theorem correction_ofPhase (x : ℝ) : (ofPhase x).correction = 1 := by
  have hunit := Real.sin_sq_add_cos_sq x
  simp only [correction, ofPhase, Scalar.sin_real, Scalar.cos_real]
  norm_num
  linarith

theorem renormalize_ofPhase (x : ℝ) : (ofPhase x).renormalize = ofPhase x := by
  rw [renormalize_eq, correction_ofPhase, mul_one, mul_one]

theorem advance_ofPhase (x d : ℝ) : (ofPhase x).advance (ofPhase d) = ofPhase (x + d) := by
  rw [advance, rotate_ofPhase, renormalize_ofPhase]

theorem after_ofPhase (x d : ℝ) (k : ℕ) :
    (ofPhase x).after (ofPhase d) k = ofPhase (x + k * d) := by
  induction k with
  | zero => rw [after_zero, Nat.cast_zero, zero_mul, add_zero]
  | succ k ih =>
    rw [after_succ, ih, advance_ofPhase]
    congr 1
    push_cast
    ring

end Oscillator

end SatNav
