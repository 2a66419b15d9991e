import VectorEditor.Geometry.Affine
import VectorEditor.Interaction.Grid
import VectorEditor.Interaction.AxisLock
import VectorEditor.Interaction.Mode

/-!
# Gestures

The transform that a drag stands for, as a function of where it began, where the pointer is, the
anchor, the locked axes and the grid. A rotation or scaling that begins at the anchor is the
identity, and so is a rotation that ends there. A scaling that ends there has the factor zero.

This is the `Gesture` of `easel_interaction`, with `snap` for `grid`.
-/

namespace VectorEditor

variable {α : Type}

/-- What a drag depends on beside the pointer. -/
@[ext]
structure Gesture (α : Type) where
  press : Point α
  anchor : Point α
  lock : AxisLock
  grid : Option (Grid α)
deriving Repr, DecidableEq

namespace Gesture

variable [Scalar α]

/-- The pointer on the grid, if there is one. -/
def snapped (g : Gesture α) (pointer : Point α) : Point α :=
  match g.grid with
  | some grid => grid.snapPoint pointer
  | none => pointer

/-- The shift by the way of the pointer. It is the way that is snapped, not the pointer. -/
def translation (g : Gesture α) (pointer : Point α) : Affine α :=
  let way := pointer - g.press
  let way := match g.grid with
    | some grid => grid.snapVec way
    | none => way
  Affine.translate (g.lock.constrain way)

/-- The rotation about the anchor by the angle between press and pointer. -/
def rotation (g : Gesture α) (pointer : Point α) : Affine α :=
  let before := g.press - g.anchor
  let after := g.snapped pointer - g.anchor
  if before.normSq == 0 || after.normSq == 0 then Affine.identity
  else Affine.rotateAbout (after.angle - before.angle) g.anchor

/-- The scaling about the anchor that takes the press to the pointer's projection on the line
through anchor and press. -/
def scaling (g : Gesture α) (pointer : Point α) : Affine α :=
  let before := g.press - g.anchor
  let whole := before.normSq
  if whole == 0 then Affine.identity
  else
    let (sx, sy) := g.lock.scaleFactors ((g.snapped pointer - g.anchor).dot before / whole)
    Affine.scaleAbout sx sy g.anchor

/-- The transform that a drag of the given kind stands for. -/
def tentative (g : Gesture α) (kind : DragKind) (pointer : Point α) : Affine α :=
  match kind with
  | .translate => g.translation pointer
  | .rotate => g.rotation pointer
  | .scale => g.scaling pointer

end Gesture

end VectorEditor
