import VectorEditor.Geometry.Point

/-!
# Pointer tracks

Where the pointer was pressed and where it was last, from a press to the release.

This is the `DragState` of `easel_interaction`, with `end` for `none` and `is_dragging` for
`isActive`.
-/

namespace VectorEditor

variable {α : Type}

/-- The course of the pointer while it is pressed. -/
@[ext]
structure Track (α : Type) where
  press : Option (Point α)
  last : Option (Point α)
deriving Repr, DecidableEq

namespace Track

/-- The pointer is not pressed. -/
def none : Track α := ⟨.none, .none⟩

/-- The pointer has just been pressed. -/
def start (p : Point α) : Track α := ⟨some p, some p⟩

def isActive (t : Track α) : Bool := t.press.isSome

variable [Scalar α]

/-- Follows the pointer, and gives the way since it was last seen. -/
def update (t : Track α) (p : Point α) : Option (Vec α) × Track α :=
  match t.press with
  | .none => (.none, t)
  | some _ => (t.last.map (p - ·), { t with last := some p })

/-- The way from the press to a point. -/
def totalOffset (t : Track α) (p : Point α) : Option (Vec α) := t.press.map (p - ·)

end Track

end VectorEditor
