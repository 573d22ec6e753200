import SatNav.Proofs.Exact.Reals
import SatNav.Vec3

/-!
# Vectors of space in exact arithmetic

The length of a vector and the product of two vectors that is perpendicular to both. How long
this product is follows from scalar products alone, by `Vec3.dot_cross_self`.
-/

namespace SatNav

open Exact

namespace Vec3

theorem dot_real (a b : Vec3 ℝ) : a.dot b = a.x * b.x + a.y * b.y + a.z * b.z := rfl

theorem dot_self_nonneg (v : Vec3 ℝ) : 0 ≤ v.dot v :=
  add_nonneg (add_nonneg (mul_self_nonneg v.x) (mul_self_nonneg v.y)) (mul_self_nonneg v.z)

/-- Length of a vector. -/
noncomputable def length (v : Vec3 ℝ) : ℝ := √(v.dot v)

theorem length_sq (v : Vec3 ℝ) : v.length ^ 2 = v.dot v := Real.sq_sqrt v.dot_self_nonneg

theorem length_of_dot_self {v : Vec3 ℝ} {r : ℝ} (hr : 0 ≤ r) (h : v.dot v = r * r) :
    v.length = r := by
  rw [length, h, Real.sqrt_mul_self hr]

/-- Vector product. -/
def cross (a b : Vec3 ℝ) : Vec3 ℝ :=
  ⟨a.y * b.z - a.z * b.y, a.z * b.x - a.x * b.z, a.x * b.y - a.y * b.x⟩

/-- The identity of Lagrange. -/
theorem dot_cross_self (a b : Vec3 ℝ) :
    (a.cross b).dot (a.cross b) = a.dot a * b.dot b - a.dot b * a.dot b := by
  simp only [dot_real, cross]
  ring

end Vec3

end SatNav
