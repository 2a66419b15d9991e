import VectorEditor.Json.Basic

/-!
# Records in documents

A record is written as an object, with a member for each field that is given, or as an array of the
first fields in their order. It is read from the front into slots, one for each field. A member with
another name is passed over; a field that is given twice, a value that its field cannot have and a
name that is no text are refused.

The `EditorSettings` of `easel_editor` are read in this way.
-/

namespace VectorEditor.Json

variable {F : Type} {Content : F → Type}

/-- What has been read so far of a record. -/
def Slots (Content : F → Type) : Type := (f : F) → Option (Content f)

namespace Slots

def empty : Slots Content := fun _ => none

def fill [DecidableEq F] (slots : Slots Content) (f : F) (x : Content f) : Slots Content :=
  fun g => if h : f = g then some (h ▸ x) else slots g

end Slots

/-- How the records of a kind are written. -/
structure Schema (F : Type) (Content : F → Type) where
  /-- The fields in the order in which an array gives them. -/
  fields : List F
  key : F → String
  /-- The content of a field for which a value stands. -/
  read? : (f : F) → Json → Option (Content f)
  mem_fields : ∀ f, f ∈ fields
  key_inj : ∀ f g, key f = key g → f = g

namespace Schema

variable [DecidableEq F]

def field? (schema : Schema F Content) (name : String) : Option F :=
  schema.fields.find? (schema.key · = name)

/-- Reads a value into the slot of a field, which has to be empty. -/
def readField? (schema : Schema F Content) (slots : Slots Content) (f : F) (v : Json) :
    Option (Slots Content) :=
  if (slots f).isSome then none else (schema.read? f v).map (slots.fill f)

def readMember? (schema : Schema F Content) (slots : Slots Content) :
    JsonString × Json → Option (Slots Content)
  | (.broken, _) => none
  | (.text name, v) =>
    match schema.field? name with
    | none => some slots
    | some f => schema.readField? slots f v

def readMembers? (schema : Schema F Content) (slots : Slots Content)
    (members : List (JsonString × Json)) : Option (Slots Content) :=
  members.foldlM schema.readMember? slots

/-- Reads the items of an array into the given fields. -/
def readItems? (schema : Schema F Content) (slots : Slots Content) :
    List F → List Json → Option (Slots Content)
  | _, [] => some slots
  | [], _ :: _ => none
  | f :: fs, v :: vs => do schema.readItems? (← schema.readField? slots f v) fs vs

def readSlots? (schema : Schema F Content) : Json → Option (Slots Content)
  | .object members => schema.readMembers? .empty members
  | .array items => schema.readItems? .empty schema.fields items
  | _ => none

end Schema

end VectorEditor.Json
