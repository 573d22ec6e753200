import SatNav.Proofs.Exact.Reals

/-!
# Exact arithmetic with infinities

`Extended` are the real numbers with two infinities and a value for what is undefined.
Between real numbers an operation is that of the real numbers, and nothing is rounded.
Where an operand is no real number, or the real numbers have no result, the rules are those
of binary64, but for the sign of zero: there is one zero only, and what is divided by it is
infinite with its own sign.
-/

namespace SatNav

/-- A real number, an infinity or the value of what is undefined. -/
inductive Extended
  | finite (x : ℝ)
  | infinite (negative : Bool)
  | undefined

namespace Extended

open Exact

def neg : Extended → Extended
  | finite x => finite (-x)
  | infinite s => infinite (!s)
  | undefined => undefined

def add : Extended → Extended → Extended
  | finite x, finite y => finite (x + y)
  | finite _, infinite s | infinite s, finite _ => infinite s
  | infinite s, infinite t => if s = t then infinite s else undefined
  | _, _ => undefined

noncomputable def mul : Extended → Extended → Extended
  | finite x, finite y => finite (x * y)
  | finite x, infinite s | infinite s, finite x =>
    if x = 0 then undefined else infinite (s ^^ decide (x < 0))
  | infinite s, infinite t => infinite (s ^^ t)
  | _, _ => undefined

noncomputable def div : Extended → Extended → Extended
  | finite x, finite y =>
    if y ≠ 0 then finite (x / y) else if x = 0 then undefined else infinite (decide (x < 0))
  | finite _, infinite _ => finite 0
  | infinite s, finite y => infinite (s ^^ decide (y < 0))
  | _, _ => undefined

def LessThan : Extended → Extended → Prop
  | finite x, finite y => x < y
  | finite _, infinite s => s = false
  | infinite s, finite _ => s = true
  | infinite s, infinite t => s = true ∧ t = false
  | _, _ => False

def AtMost : Extended → Extended → Prop
  | finite x, finite y => x ≤ y
  | finite _, infinite s => s = false
  | infinite s, finite _ => s = true
  | infinite s, infinite t => s = true ∨ t = false
  | _, _ => False

noncomputable def equal : Extended → Extended → Bool
  | finite x, finite y => decide (x = y)
  | infinite s, infinite t => s == t
  | _, _ => false

/-- A function of real numbers, and its values at the infinities. -/
def extend (f : ℝ → Extended) (positive negative : Extended) : Extended → Extended
  | finite x => f x
  | infinite s => if s then negative else positive
  | undefined => undefined

noncomputable def sqrt : Extended → Extended :=
  extend (fun x => if x < 0 then undefined else finite (Scalar.sqrt x)) (infinite false) undefined

noncomputable def log10 : Extended → Extended :=
  extend
    (fun x =>
      if x < 0 then undefined else if x = 0 then infinite true else finite (Scalar.log10 x))
    (infinite false) undefined

/-- The sign of an infinity as a number. An angle sees nothing else of it. -/
noncomputable def direction (negative : Bool) : ℝ := if negative then -1 else 1

noncomputable def atan2 : Extended → Extended → Extended
  | finite y, finite x => finite (Scalar.atan2 y x)
  | finite y, infinite s => finite (if s then direction (decide (y < 0)) * Real.pi else 0)
  | infinite s, finite _ => finite (Scalar.atan2 (direction s) 0)
  | infinite s, infinite t => finite (Scalar.atan2 (direction s) (direction t))
  | _, _ => undefined

noncomputable def remainder : Extended → Extended → Extended
  | finite x, finite y => if y = 0 then undefined else finite (Scalar.remainder x y)
  | finite x, infinite _ => finite x
  | _, _ => undefined

noncomputable def toCount : Extended → ℕ
  | finite x => Scalar.toCount x
  | infinite s => if s then 0 else maxCount
  | undefined => 0

noncomputable def toIndex : Extended → ℤ
  | finite x => Scalar.toIndex x
  | infinite s => if s then -9223372036854775808 else 9223372036854775807
  | undefined => 0

noncomputable scoped instance : Scalar Extended where
  add := add
  sub x y := add x (neg y)
  mul := mul
  div := div
  neg := neg
  lt := LessThan
  le := AtMost
  beq := equal
  decLt _ _ := Classical.propDecidable _
  decLe _ _ := Classical.propDecidable _
  ofScientific m s e := finite (OfScientific.ofScientific m s e)
  ofInt n := finite n
  pi := finite Real.pi
  abs := extend (fun x => finite |x|) (infinite false) (infinite false)
  sqrt := sqrt
  sin := extend (fun x => finite (Real.sin x)) undefined undefined
  cos := extend (fun x => finite (Real.cos x)) undefined undefined
  atan := extend (fun x => finite (Real.arctan x)) (finite (Scalar.atan2 (direction false) 0))
    (finite (Scalar.atan2 (direction true) 0))
  atan2 := atan2
  log10 := log10
  ceil := extend (fun x => finite ⌈x⌉) (infinite false) (infinite true)
  remainder := remainder
  isFinite
    | finite _ => true
    | _ => false
  toCount := toCount
  toIndex := toIndex

theorem exists_finite {x : Extended} (h : Scalar.isFinite x = true) : ∃ r, x = finite r := by
  cases x with
  | finite r => exact ⟨r, rfl⟩
  | infinite s => cases h
  | undefined => cases h

theorem le_finite (x y : ℝ) : finite x ≤ finite y ↔ x ≤ y := Iff.rfl

theorem finite_sub (x y : ℝ) : finite x - finite y = finite (x - y) :=
  congrArg finite (sub_eq_add_neg x y).symm

theorem finite_div (x : ℝ) {y : ℝ} (hy : y ≠ 0) : finite x / finite y = finite (x / y) :=
  if_pos hy

end Extended

end SatNav
