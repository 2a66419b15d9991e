import VectorEditor.Canvas.Basic

/-!
# Requests to the canvas

The changing operations of the canvas as data, so that a whole session is a list.
-/

namespace VectorEditor.Canvas

variable {α T : Type}

/-- An operation on the canvas. -/
inductive Request (α T : Type) where
  | insert (object : Drawable α T)
  | remove (key : Key)
  | restore (key : Key) (object : Drawable α T)
  | setItem (key : Key) (item : T)
  | setOrder (key : Key) (order : Int32)
  | setFlags (key : Key) (flags : Flags)
  | applyTransform (key : Key) (transform : Affine α) (frame : Frame)
  | setTransform (key : Key) (transform : Affine α)
deriving Repr, DecidableEq

/-- What an operation gives. -/
inductive Answer (α T : Type) where
  /-- The key of a new object. -/
  | key (key : Key)
  /-- The object that was removed. -/
  | object (object : Drawable α T)
  /-- The object is back. -/
  | restored
  /-- The item before. -/
  | item (item : T)
  /-- The place in the painting order before. -/
  | order (order : Int32)
  /-- The flags before. -/
  | flags (flags : Flags)
  /-- What has to be painted again. -/
  | damage (damage : Damage α)
deriving Repr, DecidableEq

variable [Scalar α] [Region α T]

def perform (c : Canvas α T) : Request α T → Except Error (Answer α T × Canvas α T)
  | .insert d => let (k, c) := c.insert d; .ok (.key k, c)
  | .remove k => (c.remove k).map fun (d, c) => (.object d, c)
  | .restore k d => (c.restore k d).map fun c => (.restored, c)
  | .setItem k item => (c.setItem k item).map fun (item, c) => (.item item, c)
  | .setOrder k n => (c.setOrder k n).map fun (n, c) => (.order n, c)
  | .setFlags k f => (c.setFlags k f).map fun (f, c) => (.flags f, c)
  | .applyTransform k t frame =>
    (c.applyTransform k t frame).map fun (damage, c) => (.damage damage, c)
  | .setTransform k t => (c.setTransform k t).map fun (damage, c) => (.damage damage, c)

/-- The canvas after an operation. A refused operation leaves it as it is. -/
def after (c : Canvas α T) (r : Request α T) : Canvas α T :=
  match c.perform r with
  | .ok (_, c) => c
  | .error _ => c

def run (c : Canvas α T) (rs : List (Request α T)) : Canvas α T := rs.foldl after c

end VectorEditor.Canvas
