import VectorEditor.Geometry.Point

/-!
# Axis locks

A locked axis takes no part in a drag: nothing moves along it and nothing is stretched along it.

This is the `AxisLock` of `easel_interaction`.
-/

namespace VectorEditor

variable {α : Type}

/-- Which axes are locked. -/
@[ext]
structure AxisLock where
  x : Bool
  y : Bool
deriving Repr, DecidableEq

namespace AxisLock

def free : AxisLock := ⟨false, false⟩

instance : Inhabited AxisLock := ⟨free⟩

/-- The locks as bits: 1 for the horizontal axis, 2 for the vertical one. -/
def bits (l : AxisLock) : UInt8 := (if l.x then 1 else 0) ||| (if l.y then 2 else 0)

variable [Scalar α]

/-- The displacement without its part along locked axes. -/
def constrain (l : AxisLock) (v : Vec α) : Vec α :=
  ⟨if l.x then 0 else v.x, if l.y then 0 else v.y⟩

/-- The factors of a stretching along the two axes. -/
def scaleFactors (l : AxisLock) (k : α) : α × α :=
  (if l.x then 1 else k, if l.y then 1 else k)

end AxisLock

end VectorEditor
