import VectorEditor.Geometry.Point

/-!
# Rectangles

A rectangle with sides parallel to the axes, given by two opposite corners in any order.

`Rect` of `kurbo`, the geometry library of Easel.
-/

namespace VectorEditor

variable {α : Type}

/-- The rectangle with opposite corners `(x0, y0)` and `(x1, y1)`. -/
@[ext]
structure Rect (α : Type) where
  x0 : α
  y0 : α
  x1 : α
  y1 : α
deriving Repr, DecidableEq

namespace Rect

variable [Scalar α]

def zero : Rect α := ⟨0, 0, 0, 0⟩

def minX (r : Rect α) : α := Scalar.min r.x0 r.x1

def maxX (r : Rect α) : α := Scalar.max r.x0 r.x1

def minY (r : Rect α) : α := Scalar.min r.y0 r.y1

def maxY (r : Rect α) : α := Scalar.max r.y0 r.y1

/-- The same rectangle with its corners in order. -/
def abs (r : Rect α) : Rect α := ⟨r.minX, r.minY, r.maxX, r.maxY⟩

/-- The smallest rectangle with both points. -/
def ofPoints (p q : Point α) : Rect α := abs ⟨p.x, p.y, q.x, q.y⟩

/-- The rectangle of a size with a corner at the origin. -/
def ofSize (s : Size α) : Rect α := ⟨0, 0, s.width, s.height⟩

/-- The smallest rectangle around two ordered ones. -/
def union (r s : Rect α) : Rect α :=
  ⟨Scalar.min r.x0 s.x0, Scalar.min r.y0 s.y0, Scalar.max r.x1 s.x1, Scalar.max r.y1 s.y1⟩

/-- The smallest rectangle around an ordered one and a point. -/
def extend (r : Rect α) (p : Point α) : Rect α :=
  ⟨Scalar.min r.x0 p.x, Scalar.min r.y0 p.y, Scalar.max r.x1 p.x, Scalar.max r.y1 p.y⟩

/-- The rectangle with every edge moved outward by `w`. -/
def inflate (r : Rect α) (w : α) : Rect α := ⟨r.x0 - w, r.y0 - w, r.x1 + w, r.y1 + w⟩

def center (r : Rect α) : Point α :=
  ⟨Scalar.half * (r.x0 + r.x1), Scalar.half * (r.y0 + r.y1)⟩

/-- Whether an ordered rectangle has the point in it, edges included. -/
def contains (r : Rect α) (p : Point α) : Bool :=
  decide (r.x0 ≤ p.x) && decide (p.x ≤ r.x1) && decide (r.y0 ≤ p.y) && decide (p.y ≤ r.y1)

end Rect

end VectorEditor
