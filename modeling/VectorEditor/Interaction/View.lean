import VectorEditor.Geometry.Affine

/-!
# The view

The window onto the canvas. The world's origin is in the middle of the window, shifted by the pan
offset, and the world's vertical axis points up while the window's points down. The transforms
between the two are kept with the view and built anew when it changes.

This is the `View` of `easel_interaction`, with `world_to_view_point` for `toView`,
`view_to_world_point` for `toWorld`, `pan_by_view` for `panBy` and `visible_world_rect` for
`visible`.
-/

namespace VectorEditor

variable {α : Type}

/-- A window of some size onto a panned canvas. -/
@[ext]
structure View (α : Type) where
  size : Size α
  pan : Vec α
  worldToView : Affine α
  viewToWorld : Affine α
deriving Repr, DecidableEq

namespace View

variable [Scalar α]

/-- The view with its transforms built from size and pan offset. -/
def build (size : Size α) (pan : Vec α) : View α :=
  let center := size.toVec.scale Scalar.half
  let worldToView := Affine.translate (pan + center) * Affine.scale 1 (-1)
  ⟨size, pan, worldToView, worldToView.inverse⟩

/-- The view of a size that is not panned. -/
def ofSize (size : Size α) : View α := build size Vec.zero

/-- The size of a view if none is given. -/
def defaultSize : Size α := ⟨800, 600⟩

instance : Inhabited (View α) := ⟨ofSize defaultSize⟩

def setSize (v : View α) (size : Size α) : View α :=
  if v.size == size then v else build size v.pan

def setPan (v : View α) (pan : Vec α) : View α :=
  if v.pan == pan then v else build v.size pan

def panBy (v : View α) (delta : Vec α) : View α := v.setPan (v.pan + delta)

/-- Where a point of the canvas is in the window. -/
def toView (v : View α) (p : Point α) : Point α := v.worldToView.apply p

/-- Which point of the canvas is at a place in the window. -/
def toWorld (v : View α) (p : Point α) : Point α := v.viewToWorld.apply p

/-- The part of the canvas that the window shows. -/
def visible (v : View α) : Rect α := v.viewToWorld.mapRect (Rect.ofSize v.size)

end View

end VectorEditor
