import VectorEditor.Canvas.Basic
import VectorEditor.History

/-!
# Changes of a drawing

The commands that the history of a drawing records. Each kind of change takes itself back in its
own way: a transformation remembers the transforms before and after, a creation or deletion holds
the object while it is off the canvas, a change of the painting order knows both places, and an
edit exchanges the item it holds with the one on the canvas.

This is the `Change` of `easel_editor`, with `TransformationChange` for `Transformation`, its
`space` for `frame`, the `object` of a creation or deletion for `held`, and `from` and `to` of a
reorder for `old` and `new`.
-/

namespace VectorEditor

variable {α T : Type}

/-- A transform of one object. The inverse is computed beforehand, so that only invertible
transforms are recorded. -/
@[ext]
structure Transformation (α : Type) where
  key : Key
  transform : Affine α
  inverse : Affine α
  frame : Frame
  /-- The transforms of the object before and after, once the change has been made. -/
  committed : Option (Affine α × Affine α)
deriving Repr, DecidableEq

/-- A change of a drawing. -/
inductive Change (α T : Type) where
  | transformation (t : Transformation α)
  /-- An object is placed; the change holds it while it is not on the canvas. -/
  | creation (key : Key) (held : Option (Drawable α T))
  /-- An object is removed; the change holds it while it is not on the canvas. -/
  | deletion (key : Key) (held : Option (Drawable α T))
  /-- An object moves in the painting order. -/
  | reorder (key : Key) (old new : Int32)
  /-- The item of an object is exchanged with the one held. -/
  | edit (key : Key) (item : T)
deriving Repr, DecidableEq

/-- A change that has not been made yet of an object's transform. -/
def Transformation.new? [Scalar α] (key : Key) (transform : Affine α) (frame : Frame) :
    Except (Singular α) (Transformation α) :=
  transform.inverse?.map fun inverse => { key, transform, inverse, frame, committed := none }

namespace Change

def key : Change α T → Key
  | .transformation t => t.key
  | .creation k _ => k
  | .deletion k _ => k
  | .reorder k _ _ => k
  | .edit k _ => k

/-- What remains of a change on a canvas. -/
abbrev Result (α T : Type) := Step (Change α T) (Canvas α T) Canvas.Error

/-- A change that is refused, and leaves all as it is. -/
def refuse (ch : Change α T) (c : Canvas α T) (err : Canvas.Error) : Result α T := ⟨ch, c, some err⟩

/-- A change whose outcome on the canvas is given and which itself becomes `ch'`. -/
def settle (ch ch' : Change α T) (c : Canvas α T) (r : Except Canvas.Error (Canvas α T)) :
    Result α T :=
  match r with
  | .ok c' => ⟨ch', c', none⟩
  | .error err => ch.refuse c err

/-- Takes an object off the canvas; `holding` makes the change that holds it. A change that holds
an object already is refused. -/
def takeOff (ch : Change α T) (c : Canvas α T) (k : Key) (held : Option (Drawable α T))
    (holding : Option (Drawable α T) → Change α T) : Result α T :=
  match held with
  | some _ => ch.refuse c (.notFound k)
  | none =>
    match c.remove k with
    | .ok (d, c') => ⟨holding (some d), c', none⟩
    | .error err => ch.refuse c err

/-- Puts the object held back on the canvas; `holding` makes the change that holds none. The key
has to be vacant and an object has to be held, which the change gives up whatever the canvas does
with it. -/
def putBack (ch : Change α T) (c : Canvas α T) (k : Key) (held : Option (Drawable α T))
    (holding : Option (Drawable α T) → Change α T) : Result α T :=
  if c.isVacant k then
    match held with
    | some d => (holding none).settle (holding none) c (c.restore k d)
    | none => ch.refuse c (.inUse k)
  else ch.refuse c (if c.contains k then .inUse k else .notFound k)

/-- Exchanges the item held with the one on the canvas. -/
def swapItem (c : Canvas α T) (k : Key) (item : T) : Result α T :=
  match c.setItem k item with
  | .ok (current, c') => ⟨.edit k current, c', none⟩
  | .error err => (Change.edit k item).refuse c err

def moveTo (ch : Change α T) (c : Canvas α T) (k : Key) (order : Int32) : Result α T :=
  ch.settle ch c ((c.setOrder k order).map (·.2))

section

variable [Scalar α] [Region α T]

/-- Transforms an object: the first time by composition, later by the transform recorded then. -/
def transform (t : Transformation α) (c : Canvas α T) : Result α T :=
  let ch : Change α T := .transformation t
  match t.committed with
  | some (_, after) => ch.settle ch c ((c.setTransform t.key after).map (·.2))
  | none =>
    match c.get? t.key with
    | none => ch.refuse c (.notFound t.key)
    | some d =>
      let committed := some (d.transform, t.frame.compose d.transform t.transform)
      ch.settle (.transformation { t with committed }) c
        ((c.applyTransform t.key t.transform t.frame).map (·.2))

/-- Transforms an object back: to the transform recorded, or by the inverse if the change has not
been made yet. -/
def transformBack (t : Transformation α) (c : Canvas α T) : Result α T :=
  let ch : Change α T := .transformation t
  match t.committed with
  | some (before, _) => ch.settle ch c ((c.setTransform t.key before).map (·.2))
  | none => ch.settle ch c ((c.applyTransform t.key t.inverse t.frame).map (·.2))

def apply (ch : Change α T) (c : Canvas α T) : Result α T :=
  match ch with
  | .transformation t => transform t c
  | .creation k held => ch.putBack c k held (.creation k)
  | .deletion k held => ch.takeOff c k held (.deletion k)
  | .reorder k _ new => ch.moveTo c k new
  | .edit k item => swapItem c k item

def revert (ch : Change α T) (c : Canvas α T) : Result α T :=
  match ch with
  | .transformation t => transformBack t c
  | .creation k held => ch.takeOff c k held (.creation k)
  | .deletion k held => ch.putBack c k held (.deletion k)
  | .reorder k old _ => ch.moveTo c k old
  | .edit k item => swapItem c k item

instance : Command (Change α T) (Canvas α T) Canvas.Error where
  apply := apply
  revert := revert

end

end Change

end VectorEditor
