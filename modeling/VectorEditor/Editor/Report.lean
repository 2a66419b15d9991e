import VectorEditor.Change
import VectorEditor.Transform.Entry

/-!
# What the editor reports

Requests to paint, errors and notices. The editor itself paints and writes nothing: what it has to
say comes back with its answers.

These are the `Redraw`, the `EditorError` and the log lines of `easel_editor`; what is handed to a
`RedrawSink` there is returned here.
-/

namespace VectorEditor.Editor

variable {α : Type}

/-- A request to paint a part of the window again. -/
inductive Redraw (α : Type) where
  /-- Objects have changed in these parts of the canvas. -/
  | committed (damage : Damage α)
  /-- The preview of a dragged object has changed. -/
  | preview (key : Key)
  | view
  | selection
deriving Repr, DecidableEq

/-- Why the editor refuses a request. -/
inductive Error (α : Type) where
  | canvas (source : Canvas.Error)
  | singular (source : Singular α)
  | notAffine (source : NotAffine α)
deriving Repr, DecidableEq

/-- Something worth a line in the log. -/
inductive Notice (α : Type) where
  | history (notice : History.Notice)
  /-- A transform was not committed because it has no inverse. -/
  | rejected (key : Key) (source : Singular α)
  /-- The dragged object was no longer there at the release. -/
  | vanished (key : Key)
deriving Repr, DecidableEq

def Notice.level : Notice α → History.Level
  | .history n => n.level
  | .rejected _ _ => .warn
  | .vanished _ => .warn

variable [Decimal.Printable α]

/-- The cause of an error in its own words. -/
def Error.sourceMessage : Error α → String
  | .canvas source => source.message
  | .singular source => source.message
  | .notAffine source => source.message

/-- What a user is told. -/
def Error.message (err : Error α) : String :=
  let context := match err with
    | .canvas _ => "canvas: "
    | .singular _ => "commit rejected: "
    | .notAffine _ => "custom transform rejected: "
  context ++ err.sourceMessage

def Notice.message : Notice α → String
  | .history n => n.message
  | .rejected k source => s!"editor: rejected commit on {k.text}: {source.message}"
  | .vanished k => s!"editor: {k.text} vanished during drag; treating release as deselect"

end VectorEditor.Editor
