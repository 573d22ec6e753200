import SatNav.Scalar

/-!
# Vectors and rotations of space

Positions and velocities are earth-centred, earth-fixed. A product of a matrix
and a vector adds its three terms from the left.
-/

namespace SatNav

structure Vec3 (R : Type) where
  x : R
  y : R
  z : R

structure Matrix3 (R : Type) where
  row1 : Vec3 R
  row2 : Vec3 R
  row3 : Vec3 R

variable {R : Type} [Scalar R]

namespace Vec3

/-- The vector from `b` to `a`. -/
def sub (a b : Vec3 R) : Vec3 R := ⟨a.x - b.x, a.y - b.y, a.z - b.z⟩

/-- Scalar product, summed from the left. -/
def dot (a b : Vec3 R) : R := a.x * b.x + a.y * b.y + a.z * b.z

end Vec3

/-- A matrix applied to a vector, row by row. -/
def Matrix3.apply (m : Matrix3 R) (v : Vec3 R) : Vec3 R :=
  ⟨m.row1.dot v, m.row2.dot v, m.row3.dot v⟩

end SatNav
