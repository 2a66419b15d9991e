/-!
# Scalars

The numbers that coordinates, angles and coefficients are made of. Every formula of the editor is
written once, over any type with these operations: the running program takes `Float`, and a
statement about exact geometry takes an ordered field. No law is assumed here, because the
operations of `Float` satisfy hardly any.

Easel computes in double precision, which is `Float` here.
-/

namespace VectorEditor

/-- The operations that the formulas of the editor use. `==` is the comparison of numbers, which
for floating-point values is neither reflexive nor the identity. -/
class Scalar (α : Type) extends Add α, Sub α, Mul α, Div α, Neg α, BEq α, LT α, LE α where
  decLt : DecidableLT α
  decLe : DecidableLE α
  ofNat : Nat → α
  abs : α → α
  /-- Whether the value is a number and not infinite. -/
  isFinite : α → Bool
  /-- The nearest whole number, with ties away from zero. -/
  round : α → α
  sqrt : α → α
  cbrt : α → α
  sin : α → α
  cos : α → α
  /-- `atan2 y x` is the angle of the direction `(x, y)`. -/
  atan2 : α → α → α
  /-- `copySign x s` has the magnitude of `x` and the sign of `s`. -/
  copySign : α → α → α

namespace Scalar

variable {α : Type} [Scalar α]

instance : DecidableLT α := Scalar.decLt

instance : DecidableLE α := Scalar.decLe

instance (priority := low) instOfNat (n : Nat) : OfNat α n := ⟨Scalar.ofNat n⟩

def half : α := 1 / 2

/-- The lesser of two numbers. A value that is not a number yields to the other one, and of two
equal values the first is taken. -/
def min (x y : α) : α := if y < x then y else if x == x then x else y

/-- The greater of two numbers. A value that is not a number yields to the other one, and of two
equal values the first is taken. -/
def max (x y : α) : α := if x < y then y else if x == x then x else y

end Scalar

/-- Double-precision numbers. The sign of a value is the top bit of its encoding. -/
instance : Scalar Float where
  decLt := inferInstance
  decLe := inferInstance
  ofNat := Float.ofNat
  abs := Float.abs
  isFinite := Float.isFinite
  round := Float.round
  sqrt := Float.sqrt
  cbrt := Float.cbrt
  sin := Float.sin
  cos := Float.cos
  atan2 := Float.atan2
  copySign x s :=
    Float.ofBits ((x.toBits &&& 0x7fffffffffffffff) ||| (s.toBits &&& 0x8000000000000000))

end VectorEditor
