import VectorEditor.Geometry.Rect

/-!
# Damage

The parts of the canvas that a change has made stale.

This is the `Damage` of `easel_canvas`, with `from_rect` for `ofRect`, `extend` for `++` and
`union_rect` for `union?`.
-/

namespace VectorEditor

variable {α : Type}

/-- Rectangles that have to be painted again, in the order in which they were reported. -/
@[ext]
structure Damage (α : Type) where
  rects : List (Rect α)
deriving Repr, DecidableEq

namespace Damage

def empty : Damage α := ⟨[]⟩

def ofRect (r : Rect α) : Damage α := ⟨[r]⟩

def isEmpty (d : Damage α) : Bool := d.rects.isEmpty

/-- Both damages, the first one first. -/
instance : Append (Damage α) := ⟨fun d e => ⟨d.rects ++ e.rects⟩⟩

/-- One rectangle around all of them, if there is any. -/
def union? [Scalar α] (d : Damage α) : Option (Rect α) :=
  match d.rects with
  | [] => none
  | r :: rs => some (rs.foldl Rect.union r)

end Damage

end VectorEditor
