import VectorEditor.Geometry.Rect

/-!
# Affine transforms

A transform of the plane with the six coefficients of

    x ↦ a x + c y + e
    y ↦ b x + d y + f

Transforms compose as functions do: `outer * inner` maps by `inner` first. An inverse exists only
where the determinant is finite and not zero; `inverse?` refuses every other transform and names
its determinant.

This is the `Transform` of `easel_transform`, with `try_inverse` for `inverse?`, `then` for
`andThen`, `transform_rect_bbox` for `mapRect` and `SingularTransform` for `Singular`, and its
`CoordinateSpace`: the `Frame` of the world is `Global`, that of the object is `Local`.
-/

namespace VectorEditor

variable {α : Type}

/-- A transform of the plane that keeps lines straight and parallels parallel. -/
@[ext]
structure Affine (α : Type) where
  a : α
  b : α
  c : α
  d : α
  e : α
  f : α
deriving Repr, DecidableEq

/-- Why a transform has no inverse: its determinant. -/
structure Singular (α : Type) where
  determinant : α
deriving Repr, DecidableEq

namespace Affine

instance [BEq α] : BEq (Affine α) :=
  ⟨fun s t => s.a == t.a && s.b == t.b && s.c == t.c && s.d == t.d && s.e == t.e && s.f == t.f⟩

variable [Scalar α]

def identity : Affine α := ⟨1, 0, 0, 1, 0, 0⟩

instance : Inhabited (Affine α) := ⟨identity⟩

/-- The composition that maps by the second transform first. -/
instance : Mul (Affine α) :=
  ⟨fun s t =>
    ⟨s.a * t.a + s.c * t.b, s.b * t.a + s.d * t.b,
      s.a * t.c + s.c * t.d, s.b * t.c + s.d * t.d,
      s.a * t.e + s.c * t.f + s.e, s.b * t.e + s.d * t.f + s.f⟩⟩

/-- First `t`, then `next`. -/
def andThen (t next : Affine α) : Affine α := next * t

def apply (t : Affine α) (p : Point α) : Point α :=
  ⟨t.a * p.x + t.c * p.y + t.e, t.b * p.x + t.d * p.y + t.f⟩

def translate (v : Vec α) : Affine α := ⟨1, 0, 0, 1, v.x, v.y⟩

/-- The stretching along both axes that keeps the origin. -/
def scale (sx sy : α) : Affine α := ⟨sx, 0, 0, sy, 0, 0⟩

/-- The rotation by an angle that keeps the origin. -/
def rotate (theta : α) : Affine α :=
  ⟨Scalar.cos theta, Scalar.sin theta, -Scalar.sin theta, Scalar.cos theta, 0, 0⟩

/-- The given transform carried out about a pivot in place of the origin. -/
def about (t : Affine α) (pivot : Point α) : Affine α :=
  translate pivot.toVec * t * translate (-pivot.toVec)

/-- The rotation by an angle that keeps the pivot. -/
def rotateAbout (theta : α) (pivot : Point α) : Affine α := (rotate theta).about pivot

/-- The stretching along both axes that keeps the pivot. -/
def scaleAbout (sx sy : α) (pivot : Point α) : Affine α := (scale sx sy).about pivot

/-- The factor by which areas grow, negative for a reflection. -/
def determinant (t : Affine α) : α := t.a * t.d - t.b * t.c

/-- Whether the determinant is finite and not zero. -/
def isInvertible (t : Affine α) : Bool :=
  !(t.determinant == 0) && Scalar.isFinite t.determinant

/-- The inverse by the cofactors, whatever the determinant. -/
def inverse (t : Affine α) : Affine α :=
  let i := 1 / t.determinant
  ⟨i * t.d, -i * t.b, -i * t.c, i * t.a, i * (t.c * t.f - t.d * t.e), i * (t.b * t.e - t.a * t.f)⟩

def inverse? (t : Affine α) : Except (Singular α) (Affine α) :=
  if t.isInvertible then .ok t.inverse else .error ⟨t.determinant⟩

def translation (t : Affine α) : Vec α := ⟨t.e, t.f⟩

/-- The smallest rectangle around the image of a rectangle. -/
def mapRect (t : Affine α) (r : Rect α) : Rect α :=
  (Rect.ofPoints (t.apply ⟨r.x0, r.y0⟩) (t.apply ⟨r.x0, r.y1⟩)).union
    (Rect.ofPoints (t.apply ⟨r.x1, r.y0⟩) (t.apply ⟨r.x1, r.y1⟩))

/-- Whether each coefficient differs by at most `eps`. -/
def approxEq (s t : Affine α) (eps : α) : Bool :=
  let near (x y : α) : Bool := decide (Scalar.abs (x - y) ≤ eps)
  near s.a t.a && near s.b t.b && near s.c t.c && near s.d t.d && near s.e t.e && near s.f t.f

def isIdentity (t : Affine α) : Bool := t == identity

end Affine

/-- The axes along which a transform is meant: those of the world or those of the object. -/
inductive Frame where
  | world
  | object
deriving Repr, DecidableEq, Inhabited

namespace Frame

variable [Scalar α]

/-- The transform of an object after a further one. Along the world's axes the new transform acts
last, along the object's own axes it acts first. -/
def compose (frame : Frame) (existing delta : Affine α) : Affine α :=
  match frame with
  | .world => delta * existing
  | .object => existing * delta

end Frame

end VectorEditor
