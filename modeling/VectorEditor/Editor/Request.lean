import VectorEditor.Editor.Basic

/-!
# Requests to the editor

The operations of the editor as data, so that a whole session is a list.
-/

namespace VectorEditor.Editor

variable {α T : Type}

/-- Something that is asked of the editor. -/
inductive Request (α T : Type) where
  | load (object : Drawable α T)
  | add (object : Drawable α T)
  | delete (key : Key)
  | edit (key : Key) (item : T)
  | replaceItem (key : Key) (item : T)
  | raise (key : Key)
  | lower (key : Key)
  | applyEntry (entry : Entry α)
  | press (p : Point α)
  | move (p : Point α)
  | release (p : Point α)
  | undo
  | redo
  | deselect
  | setMode (mode : Mode)
  | setLock (lock : AxisLock)
  | setAnchorMode (anchorMode : AnchorMode α)
  | setFrame (frame : Frame)
  | setSnapping (snapping : Bool)
  | setViewSize (size : Size α)
deriving Repr, DecidableEq

/-- What the editor answers. -/
inductive Answer (α : Type) where
  | nothing
  /-- The key of a new object. -/
  | key (key : Key)
  | press (outcome : PressOutcome Key)
  | move (outcome : MoveOutcome α Key)
  /-- Whether there was anything to do. -/
  | done (done : Bool)
  /-- The key of the object that was transformed, if there was one. -/
  | transformed (key : Option Key)
  | refused (err : Error α)
deriving Repr, DecidableEq

/-- The answer of an operation that may be refused. -/
def Answer.ofExcept {R : Type} (f : R → Answer α) : Except (Error α) R → Answer α
  | .ok r => f r
  | .error err => .refused err

variable [Scalar α] [Region α T]

def perform (e : Editor α T) : Request α T → Reply α T (Answer α)
  | .load d => (e.load d).map .key
  | .add d => (e.add d).map .key
  | .delete k => (e.delete k).map (.ofExcept fun _ => .nothing)
  | .edit k item => (e.edit k item).map (.ofExcept fun _ => .nothing)
  | .replaceItem k item => (e.replaceItem k item).map .done
  | .raise k => (e.raise k).map (.ofExcept .done)
  | .lower k => (e.lower k).map (.ofExcept .done)
  | .applyEntry entry => (e.applyEntry entry).map (.ofExcept .transformed)
  | .press p => (e.press p).map .press
  | .move p => (e.move p).map .move
  | .release p => (e.release p).map (.ofExcept .transformed)
  | .undo => e.undo.map (.ofExcept .done)
  | .redo => e.redo.map (.ofExcept .done)
  | .deselect => e.deselect.map fun _ => .nothing
  | .setMode mode => (e.setMode mode).map fun _ => .nothing
  | .setLock lock => (e.setLock lock).map fun _ => .nothing
  | .setAnchorMode anchorMode => (e.setAnchorMode anchorMode).map fun _ => .nothing
  | .setFrame frame => (e.setFrame frame).map fun _ => .nothing
  | .setSnapping snapping => (e.setSnapping snapping).map fun _ => .nothing
  | .setViewSize size => (e.setViewSize size).map fun _ => .nothing

def run (e : Editor α T) (rs : List (Request α T)) : Editor α T :=
  rs.foldl (fun e r => (e.perform r).editor) e

end VectorEditor.Editor
