import VectorEditor.Editor.Report
import VectorEditor.Interaction.Basic
import VectorEditor.Settings

/-!
# The editor

A canvas, the history of its changes, the interaction with the pointer and the settings, kept in
step with each other. Every operation gives a reply: its answer, the editor after it, what has to
be painted again and what goes to the log.

This is the `Editor` of `easel_editor`, with `load_object`, `add_object`, `delete_object` and
`edit_item` for `load`, `add`, `delete` and `edit`, `item_mut` for `replaceItem`,
`apply_custom_transform` for `applyEntry`, `on_press`, `on_move` and `on_release` for `press`,
`move` and `release`, `set_coordinate_space` for `setFrame`, `set_axis_lock` for `setLock`,
`set_grid_snap` for `setSnapping`, `track_selection` for `track` and `report_damage` for `damage`.
-/

namespace VectorEditor

variable {α T : Type}

/-- A drawing in the course of being edited. -/
@[ext]
structure Editor (α T : Type) where
  canvas : Canvas α T
  history : History (Change α T)
  interaction : Interaction α Key
  settings : Settings α
deriving Repr, DecidableEq

namespace Editor

/-- The outcome of an operation. -/
structure Reply (α T R : Type) where
  answer : R
  editor : Editor α T
  redraws : List (Redraw α) := []
  log : List (Notice α) := []

namespace Reply

variable {R R' : Type}

def map (f : R → R') (r : Reply α T R) : Reply α T R' := { r with answer := f r.answer }

/-- The outcome of a further operation on the editor, with what both report. -/
def bind (r : Reply α T R) (next : R → Editor α T → Reply α T R') : Reply α T R' :=
  let s := next r.answer r.editor
  { s with redraws := r.redraws ++ s.redraws, log := r.log ++ s.log }

end Reply

/-- The request to paint an object again: around it before and after, as far as it was and is
there. -/
def damage (before after : Option (Rect α)) : List (Redraw α) :=
  match before.toList ++ after.toList with
  | [] => []
  | rects => [.committed ⟨rects⟩]

/-! ## Ends of the painting order -/

/-- The next place in the painting order, if there is one. -/
def above (n : Int32) : Int32 := if n = Int32.maxValue then n else n + 1

/-- The place before in the painting order, if there is one. -/
def below (n : Int32) : Int32 := if n = Int32.minValue then n else n - 1

/-- An end of the painting order. -/
inductive End where
  | top
  | bottom
deriving Repr, DecidableEq

namespace End

/-- The place `m` is further towards the end than `n`. -/
def Beyond : End → Int32 → Int32 → Prop
  | .top, m, n => n < m
  | .bottom, m, n => m < n

instance (s : End) (m n : Int32) : Decidable (s.Beyond m n) :=
  match s with
  | .top => inferInstanceAs (Decidable (n < m))
  | .bottom => inferInstanceAs (Decidable (m < n))

def outermost? : End → List Int32 → Option Int32
  | .top => List.max?
  | .bottom => List.min?

def next : End → Int32 → Int32
  | .top => above
  | .bottom => below

end End

/-! ## Directions in the history -/

/-- A direction in which the history is gone through. -/
inductive Way where
  | back
  | forth
deriving Repr, DecidableEq

namespace Way

variable {C S E : Type}

/-- The commands that lie ahead, the nearest first. -/
def ahead : Way → History C → List C
  | .back => History.done
  | .forth => History.undone

def step [Command C S E] : Way → History C → S → History.Outcome C S E Bool
  | .back => History.undo
  | .forth => History.redo

end Way

variable [Scalar α]

/-- The editor of an empty drawing. -/
def ofSettings (settings : Settings α) : Editor α T :=
  { canvas := .empty
    history := .empty settings.historyLimit
    interaction :=
      (((Interaction.ofView (.ofSize settings.viewSize)).setGrid settings.grid).setSnapping
        settings.snapping).setFrame settings.frame
    settings }

/-- The editor with another state of the interaction; the selection is painted again if it has
changed. -/
def track {R : Type} (e : Editor α T) (answer : R) (ix : Interaction α Key) : Reply α T R :=
  { answer
    editor := { e with interaction := ix }
    redraws :=
      if ix.selection.revision = e.interaction.selection.revision then [] else [.selection] }

/-! ## Settings -/

/-- Gives up the selection and what the pointer is engaged in. -/
def deselect (e : Editor α T) : Reply α T Unit := e.track () e.interaction.cancel

/-- Gives up the selection if it is the given object. -/
def deselectKey (e : Editor α T) (k : Key) : Reply α T Unit :=
  if e.interaction.selected = some k then e.deselect else { answer := (), editor := e }

def setMode (e : Editor α T) (mode : Mode) : Reply α T Unit :=
  e.track () (e.interaction.setMode mode)

def setLock (e : Editor α T) (lock : AxisLock) : Reply α T Unit :=
  { answer := (), editor := { e with interaction := e.interaction.setLock lock } }

def setAnchorMode (e : Editor α T) (anchorMode : AnchorMode α) : Reply α T Unit :=
  { answer := (), editor := { e with interaction := e.interaction.setAnchorMode anchorMode } }

def setFrame (e : Editor α T) (frame : Frame) : Reply α T Unit :=
  { answer := ()
    editor :=
      { e with
        interaction := e.interaction.setFrame frame
        settings := { e.settings with useWorldFrame := frame = .world } } }

def setSnapping (e : Editor α T) (snapping : Bool) : Reply α T Unit :=
  { answer := ()
    editor :=
      { e with
        interaction := e.interaction.setSnapping snapping
        settings := { e.settings with snapping } } }

def setViewSize (e : Editor α T) (size : Size α) : Reply α T Unit :=
  if e.interaction.view.size == size then { answer := (), editor := e }
  else
    { answer := ()
      editor :=
        { e with
          interaction := e.interaction.setViewSize size
          settings := { e.settings with viewSize := size } }
      redraws := [.view] }

/-! ## Changes of the drawing -/

/-- Replaces the item of an object without a record in the history, and tells whether there is
such an object. -/
def replaceItem (e : Editor α T) (k : Key) (item : T) : Reply α T Bool :=
  match e.canvas.setItem k item with
  | .ok (_, canvas) => { answer := true, editor := { e with canvas } }
  | .error _ => { answer := false, editor := e }

section

variable [Region α T]

def execute (e : Editor α T) (ch : Change α T) : Reply α T (Except Canvas.Error Unit) :=
  let o := e.history.execute ch e.canvas
  { answer := o.answer
    editor := { e with history := o.history, canvas := o.target }
    log := o.log.map .history }

/-- Makes a change, records it and paints its object again. The painted part reaches back to
where the object was before if `withBefore` is set. -/
def commit (e : Editor α T) (ch : Change α T) (withBefore : Bool) :
    Reply α T (Except (Error α) Unit) :=
  let before := if withBefore then e.canvas.worldBounds? ch.key else none
  let r := e.execute ch
  match r.answer with
  | .ok () =>
    { r with answer := .ok (), redraws := damage before (r.editor.canvas.worldBounds? ch.key) }
  | .error err => { r with answer := .error (.canvas err), redraws := [] }

/-- Places an object without a record in the history. -/
def load (e : Editor α T) (d : Drawable α T) : Reply α T Key :=
  let (k, canvas) := e.canvas.insert d
  { answer := k
    editor := { e with canvas }
    redraws := damage none (canvas.worldBounds? k) }

def add (e : Editor α T) (d : Drawable α T) : Reply α T Key :=
  let (k, canvas) := e.canvas.insert d
  let history := e.history.push (.creation k none)
  { answer := k
    editor := { e with canvas, history }
    redraws := damage none (canvas.worldBounds? k)
    log := [.history history.recordedNotice] }

def delete (e : Editor α T) (k : Key) : Reply α T (Except (Error α) Unit) :=
  (e.deselectKey k).bind fun _ e => e.commit (.deletion k none) true

def edit (e : Editor α T) (k : Key) (item : T) : Reply α T (Except (Error α) Unit) :=
  (e.deselectKey k).bind fun _ e => e.commit (.edit k item) true

/-- The places of the other objects in the painting order. -/
def otherOrders (e : Editor α T) (k : Key) : List Int32 :=
  (e.canvas.objects.filter (·.1 ≠ k)).map (·.2.order)

/-- Moves an object to another place in the painting order. -/
def reorder (e : Editor α T) (k : Key) (old new : Int32) : Reply α T (Except (Error α) Bool) :=
  (e.commit (.reorder k old new) false).map (·.map fun _ => true)

/-- Moves an object beyond all others towards an end of the painting order, and tells whether it
was not there already. -/
def restack (e : Editor α T) (s : End) (k : Key) : Reply α T (Except (Error α) Bool) :=
  match e.canvas.get? k with
  | none => { answer := .error (.canvas (.notFound k)), editor := e }
  | some d =>
    match s.outermost? (e.otherOrders k) with
    | none => { answer := .ok false, editor := e }
    | some n =>
      if s.Beyond d.order n then { answer := .ok false, editor := e }
      else e.reorder k d.order (s.next n)

/-- Moves an object above all others in the painting order. -/
def raise (e : Editor α T) (k : Key) : Reply α T (Except (Error α) Bool) := e.restack .top k

/-- Moves an object below all others in the painting order. -/
def lower (e : Editor α T) (k : Key) : Reply α T (Except (Error α) Bool) := e.restack .bottom k

/-- Transforms an object, and gives its key. The identity changes nothing, and a transform without
inverse is refused. -/
def commitTransform (e : Editor α T) (k : Key) (t : Affine α) (frame : Frame) :
    Reply α T (Except (Error α) (Option Key)) :=
  if t.isIdentity then { answer := .ok none, editor := e }
  else
    match Transformation.new? k t frame with
    | .error err => { answer := .error (.singular err), editor := e, log := [.rejected k err] }
    | .ok change => (e.commit (.transformation change) true).map (·.map fun _ => some k)

/-- Transforms the selected object as entered, and ends the selection. -/
def applyEntry (e : Editor α T) (entry : Entry α) : Reply α T (Except (Error α) (Option Key)) :=
  match e.interaction.selected with
  | none => { answer := .ok none, editor := e }
  | some k =>
    e.deselect.bind fun _ e' =>
      match entry.resolve with
      | .error err => { answer := .error (.notAffine err), editor := e' }
      | .ok t => e'.commitTransform k t e.interaction.frame

/-! ## Undo and redo -/

/-- Paints the object of a change that has been undone or redone. -/
def stepHistory (e : Editor α T) (k : Key)
    (o : History.Outcome (Change α T) (Canvas α T) Canvas.Error Bool) :
    Reply α T (Except (Error α) Bool) :=
  { answer := match o.answer with
      | .ok stepped => .ok stepped
      | .error err => .error (.canvas err)
    editor := { e with history := o.history, canvas := o.target }
    redraws := match o.answer with
      | .ok _ => damage (e.canvas.worldBounds? k) (o.target.worldBounds? k)
      | .error _ => []
    log := o.log.map .history }

/-- Gives up the selection and goes one step through the history, and tells whether there was
one. -/
def travel (e : Editor α T) (w : Way) : Reply α T (Except (Error α) Bool) :=
  e.deselect.bind fun _ e =>
    match w.ahead e.history with
    | [] => { answer := .ok false, editor := e }
    | ch :: _ => e.stepHistory ch.key (w.step e.history e.canvas)

/-- Takes the last change back. -/
def undo (e : Editor α T) : Reply α T (Except (Error α) Bool) := e.travel .back

/-- Makes the change taken back last again. -/
def redo (e : Editor α T) : Reply α T (Except (Error α) Bool) := e.travel .forth

/-! ## Events of the pointer -/

/-- The object at a point with the rectangle around it. -/
def hitAt (e : Editor α T) (p : Point α) : Option (Hit α Key) := do
  let k ← e.canvas.hitTest p
  some ⟨k, ← e.canvas.worldBounds? k⟩

def press (e : Editor α T) (p : Point α) : Reply α T (PressOutcome Key) :=
  let hit := if e.interaction.mode = .pan then none else e.hitAt p
  let (outcome, ix) := e.interaction.press p hit
  (e.track outcome ix).bind fun outcome e =>
    { answer := outcome
      editor := e
      redraws := match outcome with
        | .dragStarted k => if e.settings.livePreview then [.preview k] else []
        | _ => [] }

def move (e : Editor α T) (p : Point α) : Reply α T (MoveOutcome α Key) :=
  let (outcome, ix) := e.interaction.move p
  { answer := outcome
    editor := { e with interaction := ix }
    redraws := match outcome with
      | .preview k _ => if e.settings.livePreview then [.preview k] else []
      | .panned _ => [.view]
      | .idle => [] }

/-- The pointer is released, and the transform of the drag is committed. A release over an object
that is no longer there commits nothing. -/
def release (e : Editor α T) (p : Point α) : Reply α T (Except (Error α) (Option Key)) :=
  let (commit, ix) := e.interaction.release p
  (e.track commit ix).bind fun commit e =>
    match commit with
    | none => { answer := .ok none, editor := e }
    | some commit =>
      (e.commitTransform commit.key commit.transform commit.frame).bind fun answer e =>
        match answer with
        | .error (.canvas (.notFound k)) =>
          { answer := .ok none, editor := e, log := [.vanished k] }
        | answer => { answer, editor := e }

/-! ## Looking up -/

/-- The transform with which an object is to be shown: that of a drag in progress included. -/
def previewTransform (e : Editor α T) (k : Key) : Option (Affine α) :=
  (e.canvas.get? k).map fun d =>
    match e.interaction.tentative with
    | some (dragged, t) =>
      if e.settings.livePreview && decide (dragged = k) then
        e.interaction.frame.compose d.transform t
      else d.transform
    | none => d.transform

end

end Editor

end VectorEditor
