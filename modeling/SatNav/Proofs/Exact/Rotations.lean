import Mathlib.LinearAlgebra.UnitaryGroup
import SatNav.Proofs.Exact.Vectors

/-!
# Rotations of space

`Matrix3.toMatrix` is a matrix of the library as one of Mathlib, so that the rotations are
those of `Matrix.specialOrthogonalGroup`. A matrix is one if its rows are two perpendicular
unit vectors and their product. Its transpose turns everything back, and it keeps lengths.
-/

namespace SatNav

open Exact Matrix

namespace Vec3

/-- Sum of two vectors. -/
def add (a b : Vec3 ℝ) : Vec3 ℝ := ⟨a.x + b.x, a.y + b.y, a.z + b.z⟩

theorem sub_add_self (a b : Vec3 ℝ) : (a.sub b).add b = a := by
  simp only [add, sub, sub_add_cancel]

theorem dot_comm (a b : Vec3 ℝ) : a.dot b = b.dot a := by
  simp only [dot_real]
  ring

theorem dot_cross_left (a b : Vec3 ℝ) : a.dot (a.cross b) = 0 := by
  simp only [dot_real, cross]
  ring

theorem dot_cross_right (a b : Vec3 ℝ) : b.dot (a.cross b) = 0 := by
  simp only [dot_real, cross]
  ring

/-- The coordinates of a vector. -/
def coordinates (v : Vec3 ℝ) : Fin 3 → ℝ := ![v.x, v.y, v.z]

theorem coordinates_injective : Function.Injective coordinates := by
  intro v w h
  have hx : v.x = w.x := congrFun h 0
  have hy : v.y = w.y := congrFun h 1
  have hz : v.z = w.z := congrFun h 2
  cases v
  cases w
  simp_all only

theorem dotProduct_coordinates (a b : Vec3 ℝ) : a.coordinates ⬝ᵥ b.coordinates = a.dot b := by
  simp [dotProduct, Fin.sum_univ_three, coordinates, dot_real]

end Vec3

namespace Matrix3

def row (m : Matrix3 ℝ) : Fin 3 → Vec3 ℝ := ![m.row1, m.row2, m.row3]

def toMatrix (m : Matrix3 ℝ) : Matrix (Fin 3) (Fin 3) ℝ := fun i => (m.row i).coordinates

def transpose (m : Matrix3 ℝ) : Matrix3 ℝ :=
  ⟨⟨m.row1.x, m.row2.x, m.row3.x⟩, ⟨m.row1.y, m.row2.y, m.row3.y⟩,
    ⟨m.row1.z, m.row2.z, m.row3.z⟩⟩

variable {m : Matrix3 ℝ}

theorem toMatrix_transpose : m.transpose.toMatrix = m.toMatrixᵀ := by
  ext i j
  fin_cases i <;> fin_cases j <;> rfl

theorem coordinates_apply (m : Matrix3 ℝ) (v : Vec3 ℝ) :
    (m.apply v).coordinates = m.toMatrix *ᵥ v.coordinates := by
  funext i
  have hrow : (m.toMatrix *ᵥ v.coordinates) i = (m.row i).dot v :=
    Vec3.dotProduct_coordinates (m.row i) v
  rw [hrow]
  fin_cases i <;> rfl

theorem toMatrix_mul_transpose (i j : Fin 3) :
    (m.toMatrix * m.toMatrixᵀ) i j = (m.row i).dot (m.row j) :=
  Vec3.dotProduct_coordinates (m.row i) (m.row j)

theorem det_toMatrix : m.toMatrix.det = (m.row1.cross m.row2).dot m.row3 := by
  rw [det_fin_three, Vec3.dot_real]
  simp only [toMatrix, row, Vec3.coordinates, Vec3.cross]
  simp
  ring

/-- A matrix whose rows are two perpendicular unit vectors and their product is a rotation. -/
theorem toMatrix_mem_of_rows (h1 : m.row1.dot m.row1 = 1) (h2 : m.row2.dot m.row2 = 1)
    (h12 : m.row1.dot m.row2 = 0) (h3 : m.row1.cross m.row2 = m.row3) :
    m.toMatrix ∈ specialOrthogonalGroup (Fin 3) ℝ := by
  have h33 : m.row3.dot m.row3 = 1 := by
    rw [← h3, Vec3.dot_cross_self, h1, h2, h12]
    norm_num
  have h13 : m.row1.dot m.row3 = 0 := by rw [← h3, Vec3.dot_cross_left]
  have h23 : m.row2.dot m.row3 = 0 := by rw [← h3, Vec3.dot_cross_right]
  rw [mem_specialOrthogonalGroup_iff, mem_orthogonalGroup_iff]
  constructor
  · ext i j
    refine (toMatrix_mul_transpose i j).trans ?_
    fin_cases i <;> fin_cases j <;>
      simp [row, h1, h2, h33, h12, h13, h23, Vec3.dot_comm m.row2 m.row1,
        Vec3.dot_comm m.row3 m.row1, Vec3.dot_comm m.row3 m.row2]
  · rw [det_toMatrix, h3, h33]

section Rotation

variable (h : m.toMatrix ∈ specialOrthogonalGroup (Fin 3) ℝ) (v : Vec3 ℝ)
include h

/-- The transpose of a rotation turns a vector back. -/
theorem transpose_apply_apply : m.transpose.apply (m.apply v) = v := by
  have hinverse : m.toMatrixᵀ * m.toMatrix = 1 :=
    (mem_orthogonalGroup_iff' (Fin 3) ℝ).mp (mem_specialOrthogonalGroup_iff.mp h).1
  apply Vec3.coordinates_injective
  rw [coordinates_apply, coordinates_apply, toMatrix_transpose, mulVec_mulVec, hinverse, one_mulVec]

theorem dot_apply_self : (m.apply v).dot (m.apply v) = v.dot v := by
  have hadjoint (w : Vec3 ℝ) : (m.apply v).dot w = v.dot (m.transpose.apply w) := by
    simp only [apply, transpose, Vec3.dot_real]
    ring
  rw [hadjoint, transpose_apply_apply h]

theorem length_apply : (m.apply v).length = v.length := by
  rw [Vec3.length, Vec3.length, dot_apply_self h]

end Rotation

end Matrix3

end SatNav
