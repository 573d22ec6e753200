import Mathlib
import SatNav.Orbit.Broadcast
import SatNav.Proofs.Exact.Reals

/-!
# Rates that are derivatives

A quantity of type `Moving` carries its rate along. `Moving.Tracks` says that at a moment
the rate is the derivative of the value. An angle need not have one: a true anomaly, being
an arctangent, jumps by a whole turn once in each orbit. `Moving.Turns` asks for less, that
the rate is the one at which the angle's direction turns, and everything computed from the
direction has a derivative all the same.

A point at a tracked radius and a turning angle has tracked coordinates, and so has a point
of a plane that is tilted and turned: the derivative of `Moving.position` is
`Moving.velocity`.
-/

namespace SatNav

open Exact

/-! ### Angles -/

/-- At the moment `t` the direction of the angle `θ` turns with the rate `ω`. -/
structure HasTurnRateAt (θ : ℝ → ℝ) (ω t : ℝ) : Prop where
  sin : HasDerivAt (fun s => Real.sin (θ s)) (Real.cos (θ t) * ω) t
  cos : HasDerivAt (fun s => Real.cos (θ s)) (-Real.sin (θ t) * ω) t

variable {θ φ : ℝ → ℝ} {ω ψ t : ℝ}

/-- An angle that does not jump turns with its derivative. -/
theorem hasTurnRateAt_of_hasDerivAt (h : HasDerivAt θ ω t) : HasTurnRateAt θ ω t :=
  ⟨h.sin, h.cos⟩

theorem HasTurnRateAt.add (hθ : HasTurnRateAt θ ω t) (hφ : HasTurnRateAt φ ψ t) :
    HasTurnRateAt (fun s => θ s + φ s) (ω + ψ) t where
  sin := by
    simp only [Real.sin_add, Real.cos_add]
    refine ((hθ.sin.fun_mul hφ.cos).fun_add (hθ.cos.fun_mul hφ.sin)).congr_deriv ?_
    ring
  cos := by
    simp only [Real.sin_add, Real.cos_add]
    refine ((hθ.cos.fun_mul hφ.cos).fun_sub (hθ.sin.fun_mul hφ.sin)).congr_deriv ?_
    ring

theorem HasTurnRateAt.double (h : HasTurnRateAt θ ω t) :
    HasTurnRateAt (fun s => 2 * θ s) (2 * ω) t := by
  simpa only [two_mul] using h.add h

/-- A correction of twice an angle's frequency. -/
theorem HasTurnRateAt.harmonic (h : HasTurnRateAt θ ω t) (a b : ℝ) :
    HasDerivAt (fun s => a * Real.sin (2 * θ s) + b * Real.cos (2 * θ s))
      (2 * ω * (a * Real.cos (2 * θ t) - b * Real.sin (2 * θ t))) t := by
  refine ((h.double.sin.const_mul a).fun_add (h.double.cos.const_mul b)).congr_deriv ?_
  ring

/-- At the moment `t` each coordinate of a position has that of the velocity as its derivative. -/
structure Vec3.HasVelocityAt (position : ℝ → Vec3 ℝ) (velocity : Vec3 ℝ) (t : ℝ) : Prop where
  x : HasDerivAt (fun s => (position s).x) velocity.x t
  y : HasDerivAt (fun s => (position s).y) velocity.y t
  z : HasDerivAt (fun s => (position s).z) velocity.z t

namespace Moving

/-- At the moment `t` the rate is the derivative of the value. -/
def Tracks (f : ℝ → Moving ℝ) (t : ℝ) : Prop := HasDerivAt (fun s => (f s).value) (f t).rate t

/-- At the moment `t` the rate is that with which the value turns, as an angle. -/
def Turns (f : ℝ → Moving ℝ) (t : ℝ) : Prop := HasTurnRateAt (fun s => (f s).value) (f t).rate t

variable {r u x y i o : ℝ → Moving ℝ}

theorem Tracks.turns (h : Tracks u t) : Turns u t := hasTurnRateAt_of_hasDerivAt h

/-! ### Points of a plane -/

theorem Tracks.abscissa (hr : Tracks r t) (hu : Turns u t) :
    Tracks (fun s => (r s).abscissa (u s)) t := by
  refine (HasDerivAt.fun_mul hr hu.cos).congr_deriv ?_
  simp only [Moving.abscissa, Scalar.sin_real, Scalar.cos_real]
  ring

theorem Tracks.ordinate (hr : Tracks r t) (hu : Turns u t) :
    Tracks (fun s => (r s).ordinate (u s)) t := by
  refine (HasDerivAt.fun_mul hr hu.sin).congr_deriv ?_
  simp only [Moving.ordinate, Scalar.sin_real, Scalar.cos_real]
  ring

/-! ### Points of space -/

theorem hasVelocityAt_position (hx : Tracks x t) (hy : Tracks y t) (hi : Tracks i t)
    (ho : Tracks o t) :
    Vec3.HasVelocityAt (fun s => position (x s) (y s) (i s) (o s))
      (velocity (x t) (y t) (i t) (o t)) t where
  x := by
    refine ((HasDerivAt.fun_mul hx ho.cos).fun_sub
      ((HasDerivAt.fun_mul hy hi.cos).fun_mul ho.sin)).congr_deriv ?_
    simp only [velocity, position, Scalar.sin_real, Scalar.cos_real]
    ring
  y := by
    refine ((HasDerivAt.fun_mul hx ho.sin).fun_add
      ((HasDerivAt.fun_mul hy hi.cos).fun_mul ho.cos)).congr_deriv ?_
    simp only [velocity, position, Scalar.sin_real, Scalar.cos_real]
    ring
  z := by
    refine (HasDerivAt.fun_mul hy hi.sin).congr_deriv ?_
    simp only [velocity, Scalar.sin_real, Scalar.cos_real]
    ring

end Moving

end SatNav
