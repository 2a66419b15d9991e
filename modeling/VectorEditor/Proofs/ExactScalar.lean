import Mathlib.Analysis.SpecialFunctions.Complex.Arg
import Mathlib.Analysis.SpecialFunctions.Pow.Real
import VectorEditor.Scalar

/-!
# Exact arithmetic

The formulas of the editor are written for any scalars. Here the scalars are exact numbers:
`ExactScalar` says that the operations are those of a field, that `==` is equality and that nothing
is infinite, and `OrderedScalar` says moreover that the comparisons are those of an ordered field.
Of roots, angles and rounding nothing is said. They are functions like any others
(`OrderedScalar.ofField`), and a statement that rests on one of their laws has the law as a
hypothesis. The real numbers satisfy all of them.
-/

namespace VectorEditor

/-- Scalars whose operations are those of a field. -/
class ExactScalar (α : Type) extends Scalar α, Field α, LawfulBEq α where
  ofNat_eq_cast (n : ℕ) : Scalar.ofNat n = (n : α)
  isFinite_eq_true (x : α) : Scalar.isFinite x = true

/-- Scalars whose operations and comparisons are those of an ordered field. -/
class OrderedScalar (α : Type) extends ExactScalar α, LinearOrder α, IsStrictOrderedRing α where
  abs_eq_abs (x : α) : Scalar.abs x = |x|

attribute [simp] ExactScalar.isFinite_eq_true OrderedScalar.abs_eq_abs

namespace Scalar

section exact

variable {α : Type} [ExactScalar α]

/-- The numerals in the formulas of the editor are those of the field. -/
@[simp] theorem numeral_zero : @OfNat.ofNat α 0 (instOfNat 0) = 0 :=
  (ExactScalar.ofNat_eq_cast 0).trans Nat.cast_zero

@[simp] theorem numeral_one : @OfNat.ofNat α 1 (instOfNat 1) = 1 :=
  (ExactScalar.ofNat_eq_cast 1).trans Nat.cast_one

end exact

section ordered

variable {α : Type} [OrderedScalar α]

@[simp] theorem min_eq_min (x y : α) : Scalar.min x y = Min.min x y := by
  by_cases hlt : y < x
  · simp [Scalar.min, hlt, min_eq_right hlt.le]
  · simp [Scalar.min, hlt, min_eq_left (not_lt.mp hlt)]

@[simp] theorem max_eq_max (x y : α) : Scalar.max x y = Max.max x y := by
  by_cases hlt : x < y
  · simp [Scalar.max, hlt, max_eq_right hlt.le]
  · simp [Scalar.max, hlt, max_eq_left (not_lt.mp hlt)]

end ordered

end Scalar

/-! ## Ordered fields -/

/-- The functions of a scalar that an ordered field does not come with. -/
structure Elementary (F : Type) where
  round : F → F
  sqrt : F → F
  cbrt : F → F
  sin : F → F
  cos : F → F
  atan2 : F → F → F
  copySign : F → F → F

/-- Every ordered field is one of exact scalars, whatever stands for roots and angles. -/
@[reducible] def OrderedScalar.ofField {F : Type} [Field F] [LinearOrder F] [IsStrictOrderedRing F]
    (fns : Elementary F) : OrderedScalar F where
  beq x y := decide (x = y)
  eq_of_beq h := of_decide_eq_true h
  rfl := decide_eq_true rfl
  decLt := inferInstance
  decLe := inferInstance
  ofNat n := n
  abs x := |x|
  isFinite _ := true
  round := fns.round
  sqrt := fns.sqrt
  cbrt := fns.cbrt
  sin := fns.sin
  cos := fns.cos
  atan2 := fns.atan2
  copySign := fns.copySign
  ofNat_eq_cast _ := rfl
  isFinite_eq_true _ := rfl
  abs_eq_abs _ := rfl
  __ := (inferInstance : Field F)
  __ := (inferInstance : LinearOrder F)
  __ := (inferInstance : IsStrictOrderedRing F)

/-- The real numbers with the functions that the names stand for. -/
noncomputable instance : OrderedScalar ℝ :=
  .ofField
    { round := fun x => if 0 ≤ x then ⌊x + 1 / 2⌋ else ⌈x - 1 / 2⌉
      sqrt := Real.sqrt
      cbrt := fun x => SignType.sign x * |x| ^ (1 / 3 : ℝ)
      sin := Real.sin
      cos := Real.cos
      atan2 := fun y x => Complex.arg ⟨x, y⟩
      copySign := fun x s => if 0 ≤ s then |x| else -|x| }

end VectorEditor
