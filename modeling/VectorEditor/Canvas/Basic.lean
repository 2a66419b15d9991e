import VectorEditor.Canvas.Damage
import VectorEditor.Canvas.Drawable

/-!
# The canvas

The objects of a drawing under keys. As long as there are any left, a key is given out once: a
removed object leaves its slot vacant, and only its own key can bring an object back into it. A key
that was never given out has no slot at all.

This is the `Canvas` of `easel_canvas`, with `ObjectKey` for `Key`, `CanvasError` for `Error`, `len`
for `size`, `iter` for `objects`, `slot_mut` for `update`, `item_mut` for `setItem`, and
`draw_order` for `order` throughout.
-/

namespace VectorEditor

/-- The name of an object: the place of its slot. -/
@[ext]
structure Key where
  index : UInt32
deriving Repr, DecidableEq

namespace Key

def ofSlot (n : Nat) : Key := ⟨n.toUInt32⟩

def slot (k : Key) : Nat := k.index.toNat

/-- The key as it stands in messages. -/
def text (k : Key) : String := s!"object#{k.index.toNat}"

end Key

/-- The objects of a drawing. -/
structure Canvas (α T : Type) where
  slots : Array (Option (Drawable α T))
  /-- Counts the objects as they come and go. -/
  live : Nat
  live_eq : live = slots.countP Option.isSome
deriving Repr, DecidableEq

namespace Canvas

variable {α T : Type}

@[ext]
theorem ext {c c' : Canvas α T} (h : c.slots = c'.slots) : c = c' := by
  obtain ⟨slots, live, hlive⟩ := c
  obtain ⟨slots', live', hlive'⟩ := c'
  obtain rfl : slots = slots' := h
  obtain rfl : live = live' := hlive.trans hlive'.symm
  rfl

/-- Why the canvas refuses an operation on a key. -/
inductive Error where
  /-- No object is stored under the key. -/
  | notFound (key : Key)
  /-- The key has an object already. -/
  | inUse (key : Key)
deriving Repr, DecidableEq

def Error.key : Error → Key
  | .notFound k => k
  | .inUse k => k

/-- What a user is told. -/
def Error.message : Error → String
  | .notFound k => s!"{k.text} is not on the canvas"
  | .inUse k => s!"{k.text} already holds an object"

/-- The canvas on which nothing was ever placed. -/
def empty : Canvas α T := ⟨#[], 0, rfl⟩

/-! ## Looking up -/

def get? (c : Canvas α T) (k : Key) : Option (Drawable α T) := c.slots[k.slot]?.join

def contains (c : Canvas α T) (k : Key) : Bool := (c.get? k).isSome

/-- Whether the key was given out and its object has been removed. -/
def isVacant (c : Canvas α T) (k : Key) : Bool :=
  match c.slots[k.slot]? with
  | some none => true
  | _ => false

/-- The objects with their keys, in the order in which the keys were given out. -/
def objects (c : Canvas α T) : List (Key × Drawable α T) :=
  c.slots.toList.zipIdx.filterMap fun (slot, n) => slot.map (Key.ofSlot n, ·)

def size (c : Canvas α T) : Nat := c.live

def isEmpty (c : Canvas α T) : Bool := c.size == 0

def maxOrder? (c : Canvas α T) : Option Int32 := (c.objects.map (·.2.order)).max?

def minOrder? (c : Canvas α T) : Option Int32 := (c.objects.map (·.2.order)).min?

/-- Whether an object of order `m` and key `k` is painted no later than one of order `n` and key
`l`: by order, and by key within one order. -/
def paintedBefore (m : Int32) (k : Key) (n : Int32) (l : Key) : Bool :=
  decide (m < n) || (m == n && decide (k.index ≤ l.index))

/-- The keys of the visible objects in the order in which they are painted. -/
def drawList (c : Canvas α T) : List Key :=
  let visible := c.objects.filter (·.2.flags.visible)
  (visible.mergeSort fun a b => paintedBefore a.2.order a.1 b.2.order b.1).map (·.1)

/-! ## Changing -/

/-- Writing a slot moves the count of the objects by what was there and what is there now. -/
theorem live_add_isSome {c : Canvas α T} {n : Nat} {s : Option (Drawable α T)}
    (h : c.slots[n]? = some s) (s' : Option (Drawable α T)) :
    c.live + s'.isSome.toNat =
      (c.slots.setIfInBounds n s').countP Option.isSome + s.isSome.toNat := by
  obtain ⟨hlt, rfl⟩ := Array.getElem?_eq_some_iff.mp h
  have hpos : c.slots[n].isSome = true → 0 < c.slots.countP Option.isSome := fun hs =>
    Array.countP_pos_iff.mpr ⟨c.slots[n], Array.getElem_mem hlt, hs⟩
  rw [c.live_eq, Array.setIfInBounds, dif_pos hlt, Array.countP_set]
  cases hs : c.slots[n].isSome <;> cases s'.isSome <;> simp_all

theorem slots_of_get? {c : Canvas α T} {k : Key} {d : Drawable α T} (h : c.get? k = some d) :
    c.slots[k.slot]? = some (some d) :=
  Option.join_eq_some_iff.mp h

def insert (c : Canvas α T) (d : Drawable α T) : Key × Canvas α T :=
  (Key.ofSlot c.slots.size, ⟨c.slots.push (some d), c.live + 1, by simp [c.live_eq]⟩)

/-- Takes the object under a key off the canvas. -/
def remove (c : Canvas α T) (k : Key) : Except Error (Drawable α T × Canvas α T) :=
  match h : c.get? k with
  | some d =>
    .ok (d, ⟨c.slots.setIfInBounds k.slot none, c.live - 1,
      Nat.sub_eq_of_eq_add (live_add_isSome (slots_of_get? h) none)⟩)
  | none => .error (.notFound k)

/-- Brings an object back under a vacant key. -/
def restore (c : Canvas α T) (k : Key) (d : Drawable α T) : Except Error (Canvas α T) :=
  match h : c.slots[k.slot]? with
  | some none =>
    .ok ⟨c.slots.setIfInBounds k.slot (some d), c.live + 1, live_add_isSome h (some d)⟩
  | some (some _) => .error (.inUse k)
  | none => .error (.notFound k)

/-- Replaces the object under a key by what `f` makes of it, and gives the object before. -/
def update (c : Canvas α T) (k : Key) (f : Drawable α T → Drawable α T) :
    Except Error (Drawable α T × Canvas α T) :=
  match h : c.get? k with
  | some d =>
    .ok (d, ⟨c.slots.setIfInBounds k.slot (some (f d)), c.live,
      Nat.add_right_cancel (live_add_isSome (slots_of_get? h) (some (f d)))⟩)
  | none => .error (.notFound k)

/-- Replaces the item of an object, and gives the item before. -/
def setItem (c : Canvas α T) (k : Key) (item : T) : Except Error (T × Canvas α T) :=
  (c.update k ({ · with item })).map fun (d, c) => (d.item, c)

/-- Moves an object to a place in the painting order, and gives its place before. -/
def setOrder (c : Canvas α T) (k : Key) (order : Int32) : Except Error (Int32 × Canvas α T) :=
  (c.update k ({ · with order })).map fun (d, c) => (d.order, c)

/-- Sets the flags of an object, and gives its flags before. -/
def setFlags (c : Canvas α T) (k : Key) (flags : Flags) : Except Error (Flags × Canvas α T) :=
  (c.update k ({ · with flags })).map fun (d, c) => (d.flags, c)

section

variable [Scalar α] [Region α T]

def worldBounds? (c : Canvas α T) (k : Key) : Option (Rect α) := (c.get? k).map (·.worldBounds)

/-- Gives an object the transform that `f` makes of its own. Damaged are the rectangles around the
object before and after. -/
def mapTransform (c : Canvas α T) (k : Key) (f : Affine α → Affine α) :
    Except Error (Damage α × Canvas α T) :=
  let move (d : Drawable α T) : Drawable α T := { d with transform := f d.transform }
  (c.update k move).map fun (d, c) => (⟨[d.worldBounds, (move d).worldBounds]⟩, c)

/-- Transforms an object further, along the axes of the given frame. -/
def applyTransform (c : Canvas α T) (k : Key) (t : Affine α) (frame : Frame) :
    Except Error (Damage α × Canvas α T) :=
  c.mapTransform k (frame.compose · t)

def setTransform (c : Canvas α T) (k : Key) (t : Affine α) :
    Except Error (Damage α × Canvas α T) :=
  c.mapTransform k fun _ => t

/-- The pickable object at a point that is painted last. -/
def hitTest (c : Canvas α T) (p : Point α) : Option Key :=
  let hits := c.objects.filter fun (_, d) => d.flags.pickable && d.covers p
  let later (a b : Key × Drawable α T) : Key × Drawable α T :=
    if paintedBefore a.2.order a.1 b.2.order b.1 then b else a
  match hits with
  | [] => none
  | a :: rest => some (rest.foldl later a).1

end

end Canvas

end VectorEditor
