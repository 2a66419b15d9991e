import VectorEditor.Geometry.Point

/-!
# The selection

At most one object is selected, together with the anchor that was chosen for it. A revision counts
the changes, so that an observer can tell by it whether the selection has to be painted again.

This is the `SelectionState` of `easel_interaction`.
-/

namespace VectorEditor

variable {α K : Type}

/-- The selected object and its anchor. -/
@[ext]
structure Selection (α K : Type) where
  key : Option K
  anchor : Point α
  revision : UInt64
deriving Repr, DecidableEq

namespace Selection

def isEmpty (s : Selection α K) : Bool := s.key.isNone

variable [Scalar α]

def empty : Selection α K := ⟨none, Point.origin, 0⟩

def clear (s : Selection α K) : Selection α K :=
  if s.key.isNone && s.anchor == Point.origin then s
  else ⟨none, Point.origin, s.revision + 1⟩

variable [DecidableEq K]

def isSelected (s : Selection α K) (k : K) : Bool := s.key == some k

/-- Selects an object, and tells whether this changes anything. -/
def select (s : Selection α K) (k : K) (anchor : Point α) : Bool × Selection α K :=
  if s.key == some k && s.anchor == anchor then (false, s)
  else (true, ⟨some k, anchor, s.revision + 1⟩)

end Selection

end VectorEditor
