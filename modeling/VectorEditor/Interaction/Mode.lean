import VectorEditor.Geometry.Rect

/-!
# Modes of the pointer

What dragging with the pointer does, and about which point of the object it does it.

These are the `Mode`, `TransformMode` (here `DragKind`) and `AnchorMode` of `easel_interaction`;
`transform_mode` is `dragKind?`.
-/

namespace VectorEditor

variable {α : Type}

/-- The kinds of transform that a drag makes. -/
inductive DragKind where
  | translate
  | rotate
  | scale
deriving Repr, DecidableEq

/-- What the pointer is used for. -/
inductive Mode where
  | select
  | pan
  | drag (kind : DragKind)
deriving Repr, DecidableEq

namespace Mode

instance : Inhabited Mode := ⟨.drag .translate⟩

/-- The kind of transform that a drag makes in this mode. -/
def dragKind? : Mode → Option DragKind
  | .drag kind => some kind
  | _ => none

end Mode

/-- Where the fixed point of a rotation or scaling lies. -/
inductive AnchorMode (α : Type) where
  | origin
  | center
  | topLeft
  | topRight
  | bottomLeft
  | bottomRight
  | custom (p : Point α)
deriving Repr, DecidableEq

namespace AnchorMode

instance : Inhabited (AnchorMode α) := ⟨.origin⟩

/-- The anchor for an object with the given bounds. -/
def resolve [Scalar α] (mode : AnchorMode α) (bounds : Rect α) : Point α :=
  match mode with
  | .origin => Point.origin
  | .center => bounds.center
  | .topLeft => ⟨bounds.minX, bounds.maxY⟩
  | .topRight => ⟨bounds.maxX, bounds.maxY⟩
  | .bottomLeft => ⟨bounds.minX, bounds.minY⟩
  | .bottomRight => ⟨bounds.maxX, bounds.minY⟩
  | .custom p => p

end AnchorMode

end VectorEditor
