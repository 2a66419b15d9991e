import VectorEditor.Canvas.Shape

/-!
# Objects of a drawing

An object is an item placed by a transform, with a place in the painting order and two flags.

This is the `DrawableObject` of `easel_canvas`, with `draw_order` for `order`, `collide` for
`covers` and `ObjectFlags` for `Flags`.
-/

namespace VectorEditor

/-- Whether an object is painted, and whether it can be picked with the pointer. -/
@[ext]
structure Flags where
  visible : Bool
  pickable : Bool
deriving Repr, DecidableEq

namespace Flags

instance : Inhabited Flags := ⟨⟨true, true⟩⟩

/-- The flags as bits: 1 for visible, 2 for pickable. -/
def bits (f : Flags) : UInt8 := (if f.visible then 1 else 0) ||| (if f.pickable then 2 else 0)

def ofBits (w : UInt8) : Flags := ⟨w &&& 1 != 0, w &&& 2 != 0⟩

end Flags

/-- An item placed on the canvas. Objects of higher order are painted later. -/
@[ext]
structure Drawable (α T : Type) where
  item : T
  transform : Affine α
  order : Int32
  flags : Flags
deriving Repr, DecidableEq

namespace Drawable

variable {α T : Type} [Scalar α] [Region α T]

/-- The rectangle around the item in its own coordinates. -/
def localBounds (d : Drawable α T) : Rect α := Region.bounds d.item

def worldBounds (d : Drawable α T) : Rect α := d.transform.mapRect d.localBounds

/-- Whether the object covers a point of the canvas. An object that its transform flattens covers
no point. -/
def covers (d : Drawable α T) (p : Point α) : Bool :=
  match d.transform.inverse? with
  | .ok inv => Region.covers d.item (inv.apply p)
  | .error _ => false

end Drawable

end VectorEditor
