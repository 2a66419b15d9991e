import VectorEditor.Interaction.Gesture
import VectorEditor.Interaction.Selection
import VectorEditor.Interaction.Track
import VectorEditor.Interaction.View

/-!
# Interaction

How presses, moves and releases of the pointer become selections, pans and transforms. A press on
an object selects it and, in a dragging mode, begins a drag; moving previews the transform, and
releasing commits it and ends the selection. Nothing here knows of the canvas: who is hit by a
press is told from outside, and a commit is handed out.

This is the `Interaction` of `easel_interaction`, with `on_press`, `on_move` and `on_release` for
`press`, `move` and `release`, `coordinate_space` for `frame`, `axis_lock` for `lock`, `grid_snap`
for `snapping` and the `DragState` for `track`.
-/

namespace VectorEditor

variable {α K : Type}

/-- The object under the pointer and the rectangle around it. -/
@[ext]
structure Hit (α K : Type) where
  key : K
  bounds : Rect α
deriving Repr, DecidableEq

/-- A transform of an object that a drag has ended in. -/
@[ext]
structure Commit (α K : Type) where
  key : K
  transform : Affine α
  frame : Frame
deriving Repr, DecidableEq

/-- What a press leads to. -/
inductive PressOutcome (K : Type) where
  | ignored
  | panStarted
  | selected (key : K)
  | dragStarted (key : K)
  | cleared
deriving Repr, DecidableEq

/-- What a move leads to. -/
inductive MoveOutcome (α K : Type) where
  | idle
  | preview (key : K) (transform : Affine α)
  | panned (pan : Vec α)
deriving Repr, DecidableEq

/-- What the pointer is engaged in. -/
inductive Phase (α : Type) where
  | idle
  /-- Panning, since a press at a place in the window with some pan offset. -/
  | panning (pressView : Point α) (basePan : Vec α)
  /-- Dragging an object, with the transform that a release would commit. -/
  | dragging (kind : DragKind) (tentative : Affine α)
deriving Repr, DecidableEq

/-- The state between two events of the pointer. -/
@[ext]
structure Interaction (α K : Type) where
  mode : Mode
  lock : AxisLock
  anchorMode : AnchorMode α
  frame : Frame
  grid : Grid α
  snapping : Bool
  selection : Selection α K
  track : Track α
  phase : Phase α
  view : View α
deriving Repr, DecidableEq

namespace Interaction

def isDragging (ix : Interaction α K) : Bool :=
  match ix.phase with
  | .dragging _ _ => true
  | _ => false

def isPanning (ix : Interaction α K) : Bool :=
  match ix.phase with
  | .panning _ _ => true
  | _ => false

def selected (ix : Interaction α K) : Option K := ix.selection.key

/-- The dragged object with the transform that a release would commit. -/
def tentative (ix : Interaction α K) : Option (K × Affine α) :=
  match ix.phase with
  | .dragging _ t => ix.selected.map (·, t)
  | _ => none

/-- The grid, if snapping is on. -/
def activeGrid (ix : Interaction α K) : Option (Grid α) :=
  if ix.snapping then some ix.grid else none

/-- The drag since the press, if the pointer is pressed. -/
def gesture (ix : Interaction α K) : Option (Gesture α) :=
  ix.track.press.map fun press =>
    { press, anchor := ix.selection.anchor, lock := ix.lock, grid := ix.activeGrid }

variable [Scalar α]

/-- The state before the first event. -/
def ofView (view : View α) : Interaction α K :=
  { mode := default, lock := default, anchorMode := default, frame := default, grid := default
    snapping := false, selection := .empty, track := .none, phase := .idle, view }

/-! ## Settings -/

def setLock (ix : Interaction α K) (lock : AxisLock) : Interaction α K := { ix with lock }

def setAnchorMode (ix : Interaction α K) (anchorMode : AnchorMode α) : Interaction α K :=
  { ix with anchorMode }

/-- Chooses the axes along which transforms are meant. Along the axes of the object, anchors are
at the origin. -/
def setFrame (ix : Interaction α K) (frame : Frame) : Interaction α K :=
  match frame with
  | .world => { ix with frame }
  | .object => { ix with frame, anchorMode := .origin }

def setSnapping (ix : Interaction α K) (snapping : Bool) : Interaction α K := { ix with snapping }

def setGrid (ix : Interaction α K) (grid : Grid α) : Interaction α K := { ix with grid }

def setViewSize (ix : Interaction α K) (size : Size α) : Interaction α K :=
  { ix with view := ix.view.setSize size }

def setViewPan (ix : Interaction α K) (pan : Vec α) : Interaction α K :=
  { ix with view := ix.view.setPan pan }

def panViewBy (ix : Interaction α K) (delta : Vec α) : Interaction α K :=
  { ix with view := ix.view.panBy delta }

/-- Gives up what the pointer is engaged in, and the selection with it. -/
def cancel (ix : Interaction α K) : Interaction α K :=
  { ix with phase := .idle, track := .none, selection := ix.selection.clear }

/-- Chooses what the pointer is used for, and gives up what it is engaged in. -/
def setMode (ix : Interaction α K) (mode : Mode) : Interaction α K := { ix.cancel with mode }

/-! ## Events of the pointer -/

/-- Begins a drag of the given kind at a point. -/
def startDrag (ix : Interaction α K) (kind : DragKind) (p : Point α) : Interaction α K :=
  { ix with phase := .dragging kind .identity, track := .start p }

def startPan (ix : Interaction α K) (p : Point α) : Interaction α K :=
  { ix with phase := .panning (ix.view.toView p) ix.view.pan, track := .start p }

/-- The pointer is pressed at a point of the canvas. While an object is dragged, further presses
are ignored. -/
def press [DecidableEq K] (ix : Interaction α K) (p : Point α) (hit : Option (Hit α K)) :
    PressOutcome K × Interaction α K :=
  if ix.isDragging then (.ignored, ix)
  else if ix.mode = .pan then (.panStarted, ix.startPan p)
  else match hit with
    | none => (.cleared, ix.cancel)
    | some hit =>
      let anchor := ix.anchorMode.resolve hit.bounds
      let ix := { ix with selection := (ix.selection.select hit.key anchor).2 }
      match ix.mode.dragKind? with
      | some kind => (.dragStarted hit.key, ix.startDrag kind p)
      | none => (.selected hit.key, { ix with phase := .idle })

/-- The pointer is moved to a point of the canvas. -/
def move (ix : Interaction α K) (p : Point α) : MoveOutcome α K × Interaction α K :=
  match ix.phase with
  | .idle => (.idle, ix)
  | .panning pressView basePan =>
    let delta := ix.lock.constrain (ix.view.toView p - pressView)
    let view := ix.view.setPan (basePan + delta)
    (.panned view.pan, { ix with view, track := (ix.track.update p).2 })
  | .dragging kind _ =>
    match ix.gesture, ix.selected with
    | some gesture, some key =>
      let t := gesture.tentative kind p
      (.preview key t, { ix with phase := .dragging kind t, track := (ix.track.update p).2 })
    | _, _ => (.idle, ix)

/-- The pointer is released at a point of the canvas. -/
def release (ix : Interaction α K) (p : Point α) : Option (Commit α K) × Interaction α K :=
  match ix.phase with
  | .idle => (none, ix)
  | .panning _ _ => (none, { ix with phase := .idle, track := .none })
  | .dragging kind _ =>
    match ix.gesture, ix.selected with
    | some gesture, some key => (some ⟨key, gesture.tentative kind p, ix.frame⟩, ix.cancel)
    | _, _ => (none, ix.cancel)

end Interaction

end VectorEditor
