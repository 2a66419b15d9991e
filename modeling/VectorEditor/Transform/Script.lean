import VectorEditor.Geometry.Affine
import VectorEditor.Decimal.Text

/-!
# Transforms in drawing scripts

A drawing script writes a transform as the tuple `(x, y, xx, xy, yx, yy)`: the shift first, then
the linear part row by row. Reading the tuple back gives the same transform.

This is the `AsyTransform` of `easel_transform`.
-/

namespace VectorEditor

variable {α : Type}

/-- The six numbers of a transform in the order of a drawing script. -/
@[ext]
structure ScriptTransform (α : Type) where
  x : α
  y : α
  xx : α
  xy : α
  yx : α
  yy : α
deriving Repr, DecidableEq

namespace ScriptTransform

def ofAffine (t : Affine α) : ScriptTransform α := ⟨t.e, t.f, t.a, t.c, t.b, t.d⟩

def toAffine (s : ScriptTransform α) : Affine α := ⟨s.xx, s.yx, s.xy, s.yy, s.x, s.y⟩

@[simp]
theorem toAffine_ofAffine (t : Affine α) : (ofAffine t).toAffine = t := rfl

@[simp]
theorem ofAffine_toAffine (s : ScriptTransform α) : ofAffine s.toAffine = s := rfl

/-- The numbers in the order in which they are written. -/
def toList (s : ScriptTransform α) : List α := [s.x, s.y, s.xx, s.xy, s.yx, s.yy]

/-- The tuple as it stands in a script. -/
def text [Decimal.Printable α] (s : ScriptTransform α) : String :=
  "(" ++ ", ".intercalate (s.toList.map Decimal.Printable.text) ++ ")"

end ScriptTransform

end VectorEditor
