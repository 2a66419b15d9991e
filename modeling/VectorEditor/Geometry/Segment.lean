import VectorEditor.Geometry.Rect
import VectorEditor.Geometry.Polynomial

/-!
# Path segments

Straight and curved segments, their points, extrema, bounding boxes and winding numbers. A winding
number is counted piece by piece between the extrema, where a segment is monotone in both
coordinates and crosses a horizontal line at most once.

`Line` and `PathSeg` (here `Segment`) of `kurbo`, the geometry library of Easel.
-/

namespace VectorEditor

variable {α : Type}

/-- A straight line from one point to another. -/
@[ext]
structure Line (α : Type) where
  start : Point α
  stop : Point α
deriving Repr, DecidableEq

namespace Line

variable [Scalar α]

def bounds (l : Line α) : Rect α := Rect.ofPoints l.start l.stop

/-- The square of the distance from a point to the nearest point of the line. -/
def distanceSq (l : Line α) (p : Point α) : α :=
  let d := l.stop - l.start
  let along := d.dot (p - l.start)
  let whole := d.dot d
  if along ≤ 0 then (p - l.start).normSq
  else if whole ≤ along then (p - l.stop).normSq
  else (p - l.start.lerp l.stop (along / whole)).normSq

end Line

/-- One piece of a path: a line, or a curve with one or two inner control points. -/
inductive Segment (α : Type) where
  | line (p0 p1 : Point α)
  | quad (p0 p1 p2 : Point α)
  | cubic (p0 p1 p2 p3 : Point α)
deriving Repr, DecidableEq

namespace Segment

variable [Scalar α]

def start : Segment α → Point α
  | .line p0 _ => p0
  | .quad p0 _ _ => p0
  | .cubic p0 _ _ _ => p0

def stop : Segment α → Point α
  | .line _ p1 => p1
  | .quad _ _ p2 => p2
  | .cubic _ _ _ p3 => p3

/-- The point at parameter `t` of the quadratic curve with these control vectors. -/
def quadAt (v0 v1 v2 : Vec α) (t : α) : Vec α :=
  let s := 1 - t
  v0.scale (s * s) + (v1.scale (s * 2) + v2.scale t).scale t

/-- The point at parameter `t` of the cubic curve with these control vectors. -/
def cubicAt (v0 v1 v2 v3 : Vec α) (t : α) : Vec α :=
  let s := 1 - t
  v0.scale (s * s * s) + (v1.scale (s * s * 3) + (v2.scale (s * 3) + v3.scale t).scale t).scale t

/-- The point at parameter `t`, which runs from 0 at the first point to 1 at the last. -/
def eval (seg : Segment α) (t : α) : Point α :=
  match seg with
  | .line p0 p1 => p0.lerp p1 t
  | .quad p0 p1 p2 => (quadAt p0.toVec p1.toVec p2.toVec t).toPoint
  | .cubic p0 p1 p2 p3 => (cubicAt p0.toVec p1.toVec p2.toVec p3.toVec t).toPoint

/-- The parameters that lie strictly inside the segment. -/
def inner (ts : List α) : List α := ts.filter fun t => decide (0 < t) && decide (t < 1)

/-- Where one coordinate of a quadratic curve with first differences `d0` and `d1` turns. -/
def quadTurns (d0 d1 : α) : List α :=
  let dd := d1 - d0
  if dd == 0 then [] else inner [-d0 / dd]

/-- Where one coordinate of a cubic curve with first differences `d0`, `d1`, `d2` turns. -/
def cubicTurns (d0 d1 d2 : α) : List α :=
  inner (Polynomial.quadraticRoots d0 (2 * (d1 - d0)) (d0 - 2 * d1 + d2))

/-- The parameters inside the segment where a coordinate turns, in ascending order. -/
def extrema (seg : Segment α) : List α :=
  let sorted (ts : List α) := ts.mergeSort fun s t => decide (s ≤ t)
  match seg with
  | .line _ _ => []
  | .quad p0 p1 p2 =>
    let d0 := p1 - p0
    let d1 := p2 - p1
    sorted (quadTurns d0.x d1.x ++ quadTurns d0.y d1.y)
  | .cubic p0 p1 p2 p3 =>
    let d0 := p1 - p0
    let d1 := p2 - p1
    let d2 := p3 - p2
    sorted (cubicTurns d0.x d1.x d2.x ++ cubicTurns d0.y d1.y d2.y)

def bounds (seg : Segment α) : Rect α :=
  (seg.extrema.map seg.eval).foldl Rect.extend (Rect.ofPoints seg.start seg.stop)

/-- The part of the segment between two parameters. -/
def between (seg : Segment α) (t0 t1 : α) : Segment α :=
  match seg with
  | .line _ _ => .line (seg.eval t0) (seg.eval t1)
  | .quad p0 p1 p2 =>
    let q0 := seg.eval t0
    .quad q0 (q0 + ((p1 - p0).lerp (p2 - p1) t0).scale (t1 - t0)) (seg.eval t1)
  | .cubic p0 p1 p2 p3 =>
    let slope := quadAt ((p1 - p0).scale 3) ((p2 - p1).scale 3) ((p3 - p2).scale 3)
    let step := (t1 - t0) * (1 / 3)
    let q0 := seg.eval t0
    let q3 := seg.eval t1
    .cubic q0 (q0 + (slope t0).scale step) (q3 - (slope t1).scale step) q3

/-- The parts of the segment from `t0` on, cut at each of the given parameters. -/
def piecesFrom (seg : Segment α) (t0 : α) : List α → List (Segment α)
  | [] => [seg.between t0 1]
  | t :: ts => seg.between t0 t :: seg.piecesFrom t ts

/-- The parts of the segment between its extrema. -/
def pieces (seg : Segment α) : List (Segment α) := seg.piecesFrom 0 seg.extrema

/-- Whether the point at the first of the given parameters that lie on the segment, if there is
one, is not to the right of `p`. -/
def firstRootLeftOf (seg : Segment α) (p : Point α) (ts : List α) : Bool :=
  match ts.find? fun t => decide (0 ≤ t) && decide (t ≤ 1) with
  | some t => decide ((seg.eval t).x ≤ p.x)
  | none => false

/-- The least and the greatest horizontal coordinate of the control points. -/
def horizontalSpan : Segment α → α × α
  | .line p0 p1 => (Scalar.min p0.x p1.x, Scalar.max p0.x p1.x)
  | .quad p0 p1 p2 =>
    (Scalar.min (Scalar.min p0.x p2.x) p1.x, Scalar.max (Scalar.max p0.x p2.x) p1.x)
  | .cubic p0 p1 p2 p3 =>
    (Scalar.min (Scalar.min (Scalar.min p0.x p3.x) p1.x) p2.x,
      Scalar.max (Scalar.max (Scalar.max p0.x p3.x) p1.x) p2.x)

/-- Whether a point at a height that the monotone piece crosses, and within its control points'
span, has the crossing on its left or on itself. The flag tells an ascending piece. -/
def crossingLeftOf (seg : Segment α) (ascending : Bool) (p : Point α) : Bool :=
  match seg with
  | .line p0 p1 =>
    let a := p1.y - p0.y
    let b := p0.x - p1.x
    let c := a * p0.x + b * p0.y
    decide ((a * p.x + b * p.y - c) * (if ascending then -1 else 1) ≤ 0)
  | .quad p0 p1 p2 =>
    seg.firstRootLeftOf p
      (Polynomial.quadraticRoots (p0.y - p.y) (2 * (p1.y - p0.y)) (p2.y - 2 * p1.y + p0.y))
  | .cubic p0 p1 p2 p3 =>
    seg.firstRootLeftOf p
      (Polynomial.cubicRoots (p0.y - p.y) (3 * (p1.y - p0.y)) (3 * (p2.y - 2 * p1.y + p0.y))
        (p3.y - 3 * p2.y + 3 * p1.y - p0.y))

/-- How often the ray from `p` to the left meets a monotone piece: `-1` for a piece that ascends
through the height of `p`, `1` for one that descends, else `0`. -/
def pieceWinding (seg : Segment α) (p : Point α) : Int :=
  let crossing (ascending : Bool) : Int :=
    let sign := if ascending then -1 else 1
    let (left, right) := seg.horizontalSpan
    if p.x < left then 0
    else if right ≤ p.x then sign
    else if seg.crossingLeftOf ascending p then sign
    else 0
  if seg.start.y < seg.stop.y then
    if p.y < seg.start.y || seg.stop.y ≤ p.y then 0 else crossing true
  else if seg.stop.y < seg.start.y then
    if p.y < seg.stop.y || seg.start.y ≤ p.y then 0 else crossing false
  else 0

/-- The contribution of the segment to the winding number around `p`. -/
def winding (seg : Segment α) (p : Point α) : Int :=
  (seg.pieces.map (·.pieceWinding p)).foldl (· + ·) 0

end Segment

end VectorEditor
