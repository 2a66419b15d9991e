import VectorEditor.Transform.Script

/-!
# Entered transforms

A user may enter a transform as a 3 × 3 matrix, as six coefficients or as a script tuple. Only a
matrix can be refused: its bottom row has to be `0, 0, 1`.

This is the `TransformInput` of `easel_transform`, with `Coeffs` and `Native` for `coefficients`,
`Asy` for `script`, and `NonAffineMatrix` for `NotAffine`.
-/

namespace VectorEditor

variable {α : Type}

/-- A row of a 3 × 3 matrix. -/
structure Row (α : Type) where
  x : α
  y : α
  w : α
deriving Repr, DecidableEq

/-- A 3 × 3 matrix, row by row. -/
structure Matrix3 (α : Type) where
  top : Row α
  middle : Row α
  bottom : Row α
deriving Repr, DecidableEq

/-- Why a matrix is no transform of the plane: its bottom row. -/
structure NotAffine (α : Type) where
  bottom : Row α
deriving Repr, DecidableEq

def Affine.toMatrix [Scalar α] (t : Affine α) : Matrix3 α :=
  ⟨⟨t.a, t.c, t.e⟩, ⟨t.b, t.d, t.f⟩, ⟨0, 0, 1⟩⟩

/-- The transform of a matrix. -/
def Affine.ofMatrix? [Scalar α] (m : Matrix3 α) : Except (NotAffine α) (Affine α) :=
  if m.bottom.x == 0 && m.bottom.y == 0 && m.bottom.w == 1 then
    .ok ⟨m.top.x, m.middle.x, m.top.y, m.middle.y, m.top.w, m.middle.w⟩
  else .error ⟨m.bottom⟩

/-- A transform as the user enters it. -/
inductive Entry (α : Type) where
  | matrix (m : Matrix3 α)
  | coefficients (t : Affine α)
  | script (s : ScriptTransform α)
deriving Repr, DecidableEq

def Entry.resolve [Scalar α] : Entry α → Except (NotAffine α) (Affine α)
  | .matrix m => Affine.ofMatrix? m
  | .coefficients t => .ok t
  | .script s => .ok s.toAffine

section

variable [Decimal.Printable α]

open Decimal.Printable (text)

/-- What a user is told of a transform without inverse. -/
def Singular.message (err : Singular α) : String :=
  s!"transform is not invertible (determinant {text err.determinant})"

/-- What a user is told of a matrix that is no transform of the plane. -/
def NotAffine.message (err : NotAffine α) : String :=
  let row := err.bottom
  s!"matrix is not affine: bottom row is [{text row.x}, {text row.y}, {text row.w}], " ++
    "expected [0, 0, 1]"

end

end VectorEditor
