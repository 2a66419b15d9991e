import VectorEditor.Geometry.Segment

/-!
# Paths

A path is drawn by a pen: it is moved, draws lines and curves to further points, and may return to
where its subpath began. The inside of a path is where the winding number is not zero; a subpath
that is left open is not closed for this purpose.

`BezPath` of `kurbo`, the geometry library of Easel, with `PathEl` for `PathElement`.
-/

namespace VectorEditor

variable {α : Type}

/-- One motion of the pen. -/
inductive PathElement (α : Type) where
  | moveTo (p : Point α)
  | lineTo (p : Point α)
  | quadTo (p1 p : Point α)
  | cubicTo (p1 p2 p : Point α)
  | close
deriving Repr, DecidableEq

/-- The motions of the pen, in order. -/
@[ext]
structure Path (α : Type) where
  elements : List (PathElement α)
deriving Repr, DecidableEq

namespace Path

variable [Scalar α]

/-- The segments drawn by a pen that is at `last` in a subpath that began at `start`. A closing
motion draws nothing where the pen is at the beginning already. -/
def segmentsFrom (start last : Point α) : List (PathElement α) → List (Segment α)
  | [] => []
  | .moveTo p :: rest => segmentsFrom p p rest
  | .lineTo p :: rest => .line last p :: segmentsFrom start p rest
  | .quadTo p1 p :: rest => .quad last p1 p :: segmentsFrom start p rest
  | .cubicTo p1 p2 p :: rest => .cubic last p1 p2 p :: segmentsFrom start p rest
  | .close :: rest =>
    if last == start then segmentsFrom start last rest
    else .line last start :: segmentsFrom start start rest

/-- The segments of the path. A path begins by moving the pen. -/
def segments (path : Path α) : List (Segment α) :=
  match path.elements with
  | .moveTo p :: rest => segmentsFrom p p rest
  | _ => []

def bounds (path : Path α) : Rect α :=
  match path.segments.map Segment.bounds with
  | [] => Rect.zero
  | r :: rs => rs.foldl Rect.union r

/-- How often the path winds around a point. -/
def winding (path : Path α) (p : Point α) : Int :=
  (path.segments.map (·.winding p)).foldl (· + ·) 0

def contains (path : Path α) (p : Point α) : Bool := path.winding p != 0

end Path

end VectorEditor
