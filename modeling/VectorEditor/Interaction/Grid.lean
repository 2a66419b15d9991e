import VectorEditor.Geometry.Point

/-!
# The snapping grid

Major lines at a fixed distance, with a count of minor lines between each two of them. Snapping
takes a coordinate to the nearest line.

This is the `GridSnap` of `easel_interaction`, with `snap_value` for `snap`.
-/

namespace VectorEditor

variable {α : Type}

/-- A grid of major lines divided by minor ones. -/
@[ext]
structure Grid (α : Type) where
  majorSpacing : α
  minorCount : Nat
deriving Repr, DecidableEq

namespace Grid

variable [Scalar α]

instance : Inhabited (Grid α) := ⟨⟨100, 9⟩⟩

/-- The distance between neighbouring lines. -/
def spacing (g : Grid α) : α := g.majorSpacing / (Scalar.ofNat g.minorCount + 1)

/-- The nearest multiple of the spacing. A grid whose spacing is not a positive finite number
leaves every value as it is. -/
def snap (g : Grid α) (v : α) : α :=
  if Scalar.isFinite g.spacing && decide (0 < g.spacing) then
    Scalar.round (v / g.spacing) * g.spacing
  else v

def snapPoint (g : Grid α) (p : Point α) : Point α := ⟨g.snap p.x, g.snap p.y⟩

def snapVec (g : Grid α) (v : Vec α) : Vec α := ⟨g.snap v.x, g.snap v.y⟩

end Grid

end VectorEditor
