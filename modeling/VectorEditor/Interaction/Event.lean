import VectorEditor.Interaction.Basic

/-!
# Events

Everything that can happen to an interaction as data, so that a whole session is a list.
-/

namespace VectorEditor.Interaction

variable {α K : Type}

/-- Something that happens to an interaction. -/
inductive Event (α K : Type) where
  | press (p : Point α) (hit : Option (Hit α K))
  | move (p : Point α)
  | release (p : Point α)
  | cancel
  | setMode (mode : Mode)
  | setLock (lock : AxisLock)
  | setAnchorMode (anchorMode : AnchorMode α)
  | setFrame (frame : Frame)
  | setSnapping (snapping : Bool)
  | setGrid (grid : Grid α)
  | setViewSize (size : Size α)
  | setViewPan (pan : Vec α)
  | panViewBy (delta : Vec α)
  /-- The view is exchanged for another one. -/
  | setView (view : View α)
deriving Repr, DecidableEq

/-- What an event leads to. -/
inductive Answer (α K : Type) where
  | nothing
  | press (outcome : PressOutcome K)
  | move (outcome : MoveOutcome α K)
  | release (commit : Option (Commit α K))
  /-- Whether a drag was given up. -/
  | cancel (wasDragging : Bool)
deriving Repr, DecidableEq

variable [Scalar α] [DecidableEq K]

/-- What an event leads to, and the state after it. -/
def handle (ix : Interaction α K) : Event α K → Answer α K × Interaction α K
  | .press p hit => let (o, ix) := ix.press p hit; (.press o, ix)
  | .move p => let (o, ix) := ix.move p; (.move o, ix)
  | .release p => let (c, ix) := ix.release p; (.release c, ix)
  | .cancel => (.cancel ix.isDragging, ix.cancel)
  | .setMode mode => (.nothing, ix.setMode mode)
  | .setLock lock => (.nothing, ix.setLock lock)
  | .setAnchorMode anchorMode => (.nothing, ix.setAnchorMode anchorMode)
  | .setFrame frame => (.nothing, ix.setFrame frame)
  | .setSnapping snapping => (.nothing, ix.setSnapping snapping)
  | .setGrid grid => (.nothing, ix.setGrid grid)
  | .setViewSize size => (.nothing, ix.setViewSize size)
  | .setViewPan pan => (.nothing, ix.setViewPan pan)
  | .panViewBy delta => (.nothing, ix.panViewBy delta)
  | .setView view => (.nothing, { ix with view })

def run (ix : Interaction α K) (events : List (Event α K)) : Interaction α K :=
  events.foldl (fun ix e => (ix.handle e).2) ix

end VectorEditor.Interaction
