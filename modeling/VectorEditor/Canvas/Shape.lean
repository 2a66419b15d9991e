import VectorEditor.Geometry.Affine
import VectorEditor.Geometry.Path

/-!
# Shapes

What the canvas needs to know of an item, in the item's own coordinates: a rectangle around it and
which points it covers. Rectangles, circles, stroked lines and paths come with the library.

`Region` is `Collide` of `easel_canvas`, with `local_bounds` for `bounds` and `collide_local` for
`covers`.
-/

namespace VectorEditor

variable {α : Type}

/-- Items that occupy a part of the plane. -/
class Region (α : outParam Type) (T : Type) where
  /-- A rectangle around the item. -/
  bounds : T → Rect α
  /-- Whether the item covers a point. -/
  covers : T → Point α → Bool

/-- The points within a distance of the center. -/
@[ext]
structure Circle (α : Type) where
  center : Point α
  radius : α
deriving Repr, DecidableEq

/-- The points within half the pen's width of a line. -/
@[ext]
structure StrokedLine (α : Type) where
  line : Line α
  halfWidth : α
deriving Repr, DecidableEq

/-- The shapes that come with the library. -/
inductive Shape (α : Type) where
  | rect (r : Rect α)
  | circle (c : Circle α)
  | line (l : StrokedLine α)
  | path (p : Path α)
deriving Repr, DecidableEq

variable [Scalar α]

/-- A rectangle covers its edges. -/
instance : Region α (Rect α) where
  bounds r := r.abs
  covers r p := r.abs.contains p

/-- A circle covers its rim. The sign of the radius is of no account. -/
instance : Region α (Circle α) where
  bounds c :=
    let r := Scalar.abs c.radius
    ⟨c.center.x - r, c.center.y - r, c.center.x + r, c.center.y + r⟩
  covers c p := decide ((p - c.center).normSq ≤ c.radius * c.radius)

/-- A stroked line has round ends. -/
instance : Region α (StrokedLine α) where
  bounds s := s.line.bounds.inflate s.halfWidth
  covers s p := decide (Scalar.sqrt (s.line.distanceSq p) ≤ s.halfWidth)

/-- A path covers its inside. -/
instance : Region α (Path α) where
  bounds p := p.bounds
  covers p := p.contains

instance : Region α (Shape α) where
  bounds
    | .rect r => Region.bounds r
    | .circle c => Region.bounds c
    | .line l => Region.bounds l
    | .path p => Region.bounds p
  covers
    | .rect r => Region.covers r
    | .circle c => Region.covers c
    | .line l => Region.covers l
    | .path p => Region.covers p

end VectorEditor
