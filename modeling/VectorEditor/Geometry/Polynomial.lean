import VectorEditor.Scalar

/-!
# Real roots of quadratic and cubic polynomials

Coefficients are given from the constant term up. A leading coefficient too small to divide by
makes the polynomial count as one of lower degree.
-/

namespace VectorEditor.Polynomial

variable {α : Type} [Scalar α]

/-- The root of `c0 + c1 x`, if there is a finite one. Where both coefficients vanish, zero stands
for all of them. -/
def linearRoots (c0 c1 : α) : List α :=
  let root := -c0 / c1
  if Scalar.isFinite root then [root]
  else if c0 == 0 && c1 == 0 then [0]
  else []

/-- The root given and the one whose product with it is `product`, in ascending order. -/
def rootPair (root product : α) : List α :=
  let other := product / root
  if Scalar.isFinite other then
    if root < other then [root, other] else [other, root]
  else [root]

/-- The real roots of `c0 + c1 x + c2 x²` in ascending order. The root of greater magnitude is
computed first, without cancellation, and the other one from their product. -/
def quadraticRoots (c0 c1 c2 : α) : List α :=
  let p := c0 * (1 / c2)
  let q := c1 * (1 / c2)
  if !Scalar.isFinite p || !Scalar.isFinite q then linearRoots c0 c1
  else
    let arg := q * q - 4 * p
    if !Scalar.isFinite arg then rootPair (-q) p
    else if arg < 0 then []
    else if arg == 0 then [-Scalar.half * q]
    else rootPair (-Scalar.half * (q + Scalar.copySign (Scalar.sqrt arg) q)) p

/-- The real roots of `x³ + 3 c2 x² + 3 c1 x + c0`. -/
def monicRoots (c0 c1 c2 : α) : List α :=
  let d0 := c1 - c2 * c2
  let d1 := c0 - c1 * c2
  let d2 := c2 * c0 - c1 * c1
  let disc := 4 * d0 * d2 - d1 * d1
  let de := -2 * c2 * d0 + d1
  if disc < 0 then
    let sq := Scalar.sqrt (-(1 / 4) * disc)
    let r := -Scalar.half * de
    [Scalar.cbrt (r + sq) + Scalar.cbrt (r - sq) - c2]
  else if disc == 0 then
    let t := Scalar.copySign (Scalar.sqrt (-d0)) de
    [t - c2, -2 * t - c2]
  else
    let theta := Scalar.atan2 (Scalar.sqrt disc) (-de) / 3
    let c := Scalar.cos theta
    let s := Scalar.sin theta * Scalar.sqrt 3
    let t := 2 * Scalar.sqrt (-d0)
    [t * c - c2, t * Scalar.half * (-c + s) - c2, t * Scalar.half * (-c - s) - c2]

/-- The real roots of `c0 + c1 x + c2 x² + c3 x³`. -/
def cubicRoots (c0 c1 c2 c3 : α) : List α :=
  let k := 1 / c3
  let s2 := c2 * (k / 3)
  let s1 := c1 * (k / 3)
  let s0 := c0 * k
  if Scalar.isFinite s0 && Scalar.isFinite s1 && Scalar.isFinite s2 then monicRoots s0 s1 s2
  else quadraticRoots c0 c1 c2

end VectorEditor.Polynomial
