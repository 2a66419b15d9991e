import VectorEditor.Interaction.Gesture
import VectorEditor.Interaction.View
import VectorEditor.Json.Parser
import VectorEditor.Json.Record

/-!
# Settings

What a user may choose beforehand, and how it is read from a settings file. The file is a document
that holds one record. What is missing in it takes its default; members with other names belong to
other parts of the application and are passed over.

These are the `EditorSettings` of `easel_editor`, with `grid_major_spacing` for `majorSpacing`,
`grid_minor_count` for `minorCount`, `grid_snap` for `snapping`, `use_global_coords` for
`useWorldFrame` and `immediate_preview` for `livePreview`.
-/

namespace VectorEditor

variable {α β : Type}

/-- The choices of a user. -/
@[ext]
structure Settings (α : Type) where
  /-- The distance between the major lines of the grid. -/
  majorSpacing : α
  /-- The count of minor lines between two major ones. -/
  minorCount : Nat
  /-- Whether drags snap to the grid. -/
  snapping : Bool
  /-- Whether transforms are meant along the axes of the world. -/
  useWorldFrame : Bool
  /-- Whether a drag is shown while it lasts. -/
  livePreview : Bool
  /-- How many changes can be undone, if there is a limit. -/
  historyLimit : Option Nat
  viewSize : Size α
deriving Repr, DecidableEq, BEq

namespace Settings

def grid (s : Settings α) : Grid α := ⟨s.majorSpacing, s.minorCount⟩

def frame (s : Settings α) : Frame := if s.useWorldFrame then .world else .object

instance [Scalar α] : Inhabited (Settings α) where
  default :=
    { majorSpacing := (default : Grid α).majorSpacing
      minorCount := (default : Grid α).minorCount
      snapping := false
      useWorldFrame := true
      livePreview := true
      historyLimit := none
      viewSize := View.defaultSize }

/-! ## Fields -/

/-- The fields of a size in a file. -/
inductive SizeField where
  | width
  | height
deriving Repr, DecidableEq

/-- The settings that a file can name. -/
inductive Field where
  | majorSpacing
  | minorCount
  | snapping
  | useWorldFrame
  | livePreview
  | historyLimit
  | viewSize
deriving Repr, DecidableEq

/-! ## Values of a kind -/

def number? [Decimal.Readable α] : Json → Option α
  | .number l => Decimal.Readable.ofLiteral? l
  | _ => none

def bool? : Json → Option Bool
  | .bool b => some b
  | _ => none

/-- A whole number below a bound, written without sign, point and exponent. -/
def natBelow? (bound : Nat) : Json → Option Nat
  | .number l =>
    if l.whole && !l.negative && decide (l.significand < bound) then some l.significand else none
  | _ => none

/-- A value or nothing. -/
def nullable? (read : Json → Option β) : Json → Option (Option β)
  | .null => some none
  | v => (read v).map some

/-! ## Sizes -/

namespace SizeField

def schema [Decimal.Readable α] : Json.Schema SizeField fun _ => α where
  fields := [width, height]
  key
    | width => "width"
    | height => "height"
  read? _ := number?
  mem_fields f := by cases f <;> simp
  key_inj f g := by cases f <;> cases g <;> simp

end SizeField

/-- A size, which has both a width and a height. -/
def size? [Decimal.Readable α] (v : Json) : Option (Size α) := do
  let slots ← SizeField.schema.readSlots? v
  some ⟨← slots .width, ← slots .height⟩

/-! ## Settings -/

namespace Field

/-- The name of a setting in a file. -/
def key : Field → String
  | majorSpacing => "gridMajorAxesSpacing"
  | minorCount => "gridMinorAxesCount"
  | snapping => "defaultGridSnap"
  | useWorldFrame => "useGlobalCoords"
  | livePreview => "enableImmediatePreview"
  | historyLimit => "historyLimit"
  | viewSize => "viewSize"

/-- What a setting is. -/
def Content (α : Type) : Field → Type
  | majorSpacing => α
  | minorCount => Nat
  | snapping => Bool
  | useWorldFrame => Bool
  | livePreview => Bool
  | historyLimit => Option Nat
  | viewSize => Size α

def read? [Decimal.Readable α] : (f : Field) → Json → Option (f.Content α)
  | majorSpacing => @number? α _
  | minorCount => natBelow? UInt32.size
  | snapping => bool?
  | useWorldFrame => bool?
  | livePreview => bool?
  | historyLimit => nullable? (natBelow? UInt64.size)
  | viewSize => @size? α _

def schema [Decimal.Readable α] : Json.Schema Field (Content α) where
  fields :=
    [majorSpacing, minorCount, snapping, useWorldFrame, livePreview, historyLimit, viewSize]
  key := key
  read? := read?
  mem_fields f := by cases f <;> simp
  key_inj f g := by cases f <;> cases g <;> simp [key]

end Field

/-- The content of a setting. -/
def get (s : Settings α) : (f : Field) → f.Content α
  | .majorSpacing => s.majorSpacing
  | .minorCount => s.minorCount
  | .snapping => s.snapping
  | .useWorldFrame => s.useWorldFrame
  | .livePreview => s.livePreview
  | .historyLimit => s.historyLimit
  | .viewSize => s.viewSize

/-- The settings with the given contents. -/
def ofContents (content : (f : Field) → f.Content α) : Settings α where
  majorSpacing := content .majorSpacing
  minorCount := content .minorCount
  snapping := content .snapping
  useWorldFrame := content .useWorldFrame
  livePreview := content .livePreview
  historyLimit := content .historyLimit
  viewSize := content .viewSize

section

variable [Scalar α] [Decimal.Readable α]

/-- The settings in a document. -/
def ofJson? (v : Json) : Option (Settings α) := do
  let slots ← Field.schema.readSlots? v
  some (ofContents fun f => (slots f).getD ((default : Settings α).get f))

/-- The settings in the text of a settings file. -/
def parse? (text : String) : Option (Settings α) := do ofJson? (← Json.parse? text)

end

end Settings

end VectorEditor
