import VectorEditor.Scalar

/-!
# Points, vectors and sizes

Positions and displacements are different types: the difference of two points is a vector, and a
point moved by a vector is a point. Equality `==` compares coordinate by coordinate as numbers.

`Point`, `Vec2` (here `Vec`) and `Size` of `kurbo`, the geometry library of Easel.
-/

namespace VectorEditor

variable {α : Type}

/-- A displacement in the plane. -/
@[ext]
structure Vec (α : Type) where
  x : α
  y : α
deriving Repr, DecidableEq

/-- A position in the plane. -/
@[ext]
structure Point (α : Type) where
  x : α
  y : α
deriving Repr, DecidableEq

/-- A width and a height. -/
@[ext]
structure Size (α : Type) where
  width : α
  height : α
deriving Repr, DecidableEq

instance [BEq α] : BEq (Vec α) := ⟨fun v w => v.x == w.x && v.y == w.y⟩

instance [BEq α] : BEq (Point α) := ⟨fun p q => p.x == q.x && p.y == q.y⟩

instance [BEq α] : BEq (Size α) := ⟨fun r s => r.width == s.width && r.height == s.height⟩

namespace Vec

variable [Scalar α]

def zero : Vec α := ⟨0, 0⟩

instance : Add (Vec α) := ⟨fun v w => ⟨v.x + w.x, v.y + w.y⟩⟩

instance : Sub (Vec α) := ⟨fun v w => ⟨v.x - w.x, v.y - w.y⟩⟩

instance : Neg (Vec α) := ⟨fun v => ⟨-v.x, -v.y⟩⟩

def scale (v : Vec α) (k : α) : Vec α := ⟨v.x * k, v.y * k⟩

def dot (v w : Vec α) : α := v.x * w.x + v.y * w.y

def normSq (v : Vec α) : α := v.dot v

/-- The direction of the vector as an angle. -/
def angle (v : Vec α) : α := Scalar.atan2 v.y v.x

/-- The vector a fraction `t` of the way from `v` to `w`. -/
def lerp (v w : Vec α) (t : α) : Vec α := v + (w - v).scale t

end Vec

namespace Point

variable [Scalar α]

def origin : Point α := ⟨0, 0⟩

def toVec (p : Point α) : Vec α := ⟨p.x, p.y⟩

instance : HAdd (Point α) (Vec α) (Point α) := ⟨fun p v => ⟨p.x + v.x, p.y + v.y⟩⟩

instance : HSub (Point α) (Vec α) (Point α) := ⟨fun p v => ⟨p.x - v.x, p.y - v.y⟩⟩

instance : HSub (Point α) (Point α) (Vec α) := ⟨fun p q => ⟨p.x - q.x, p.y - q.y⟩⟩

/-- The point a fraction `t` of the way from `p` to `q`. -/
def lerp (p q : Point α) (t : α) : Point α := p + (q - p).scale t

end Point

/-- The point at the end of a displacement from the origin. -/
def Vec.toPoint (v : Vec α) : Point α := ⟨v.x, v.y⟩

/-- The displacement from one corner to the opposite one. -/
def Size.toVec (s : Size α) : Vec α := ⟨s.width, s.height⟩

end VectorEditor
