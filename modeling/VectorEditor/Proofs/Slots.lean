import VectorEditor.Canvas.Basic

/-!
# Slots of the canvas

Every operation of the canvas reads and writes a single slot, or appends one. `slot?` reads the slot
of a key, `put` writes it and `extend` appends a slot; the equations here say what each operation
does in these terms, so that nothing later has to look into the array.
-/

namespace VectorEditor

namespace Key

theorem slot_inj {k l : Key} (h : k.slot = l.slot) : k = l := by
  apply Key.ext
  exact UInt32.toNat_inj.mp h

theorem slot_ofSlot {n : Nat} (h : n < UInt32.size) : (ofSlot n).slot = n := by
  simp only [ofSlot, slot, Nat.toUInt32_eq]
  exact UInt32.toNat_ofNat_of_lt h

theorem slot_ofSlot_le (n : Nat) : (ofSlot n).slot ≤ n := by
  simp only [ofSlot, slot, Nat.toUInt32_eq, UInt32.toNat_ofNat']
  exact Nat.mod_le _ _

end Key

namespace Canvas

variable {α T : Type}

/-- The slot of a key: none if the key was never given out, empty if its object is removed. -/
def slot? (c : Canvas α T) (k : Key) : Option (Option (Drawable α T)) := c.slots[k.slot]?

/-- The canvas with the given slots. -/
def ofSlots (slots : Array (Option (Drawable α T))) : Canvas α T :=
  ⟨slots, slots.countP Option.isSome, rfl⟩

/-- Writes the slot of a key. -/
def put (c : Canvas α T) (k : Key) (s : Option (Drawable α T)) : Canvas α T :=
  ofSlots (c.slots.setIfInBounds k.slot s)

/-- Appends a slot. -/
def extend (c : Canvas α T) (s : Option (Drawable α T)) : Canvas α T := ofSlots (c.slots.push s)

/-- The key that is given out next. -/
def nextKey (c : Canvas α T) : Key := .ofSlot c.slots.size

variable {c : Canvas α T} {k l : Key} {s s' : Option (Drawable α T)}

/-! ## Reading -/

theorem slot_lt_of_slot? (h : c.slot? k = some s) : k.slot < c.slots.size :=
  (Array.getElem?_eq_some_iff.mp h).1

theorem isSome_slot?_iff : (c.slot? k).isSome ↔ k.slot < c.slots.size := by
  rw [slot?, isSome_getElem?]

theorem get?_eq_join (c : Canvas α T) (k : Key) : c.get? k = (c.slot? k).join := rfl

theorem get?_of_slot? (h : c.slot? k = some s) : c.get? k = s := by
  rw [get?_eq_join, h, Option.join_some]

theorem get?_eq_some_iff {d : Drawable α T} : c.get? k = some d ↔ c.slot? k = some (some d) := by
  rw [get?_eq_join, Option.join_eq_some_iff]

theorem isVacant_iff : c.isVacant k = true ↔ c.slot? k = some none := by
  simp only [isVacant, slot?]
  split
  · rename_i h
    simp [h]
  · rename_i h
    simpa using h

theorem contains_eq (c : Canvas α T) (k : Key) : c.contains k = (c.get? k).isSome := rfl

/-! ## Writing -/

@[simp] theorem size_put (c : Canvas α T) (k : Key) (s : Option (Drawable α T)) :
    (c.put k s).slots.size = c.slots.size :=
  Array.size_setIfInBounds

theorem slot?_put_self (h : c.slot? k = some s) (s' : Option (Drawable α T)) :
    (c.put k s').slot? k = some s' :=
  Array.getElem?_setIfInBounds_self_of_lt (slot_lt_of_slot? h)

theorem slot?_put_ne (h : l ≠ k) (c : Canvas α T) (s : Option (Drawable α T)) :
    (c.put k s).slot? l = c.slot? l :=
  Array.getElem?_setIfInBounds_ne fun hslot => h (Key.slot_inj hslot).symm

theorem put_put (c : Canvas α T) (k : Key) (s s' : Option (Drawable α T)) :
    (c.put k s).put k s' = c.put k s' := by
  simp only [put, ofSlots, Array.setIfInBounds_setIfInBounds]

theorem isSome_slot?_put (c : Canvas α T) (k l : Key) (s : Option (Drawable α T)) :
    ((c.put k s).slot? l).isSome = (c.slot? l).isSome := by
  rw [Bool.eq_iff_iff, isSome_slot?_iff, isSome_slot?_iff, size_put]

theorem put_of_slot? (h : c.slot? k = some s) : c.put k s = c := by
  obtain ⟨hlt, hget⟩ := Array.getElem?_eq_some_iff.mp h
  apply Canvas.ext
  show c.slots.setIfInBounds k.slot s = c.slots
  rw [Array.setIfInBounds, dif_pos hlt, ← hget, Array.set_getElem_self]

theorem get?_put_self (h : c.slot? k = some s) (s' : Option (Drawable α T)) :
    (c.put k s').get? k = s' :=
  get?_of_slot? (slot?_put_self h s')

theorem get?_put_ne (h : l ≠ k) (c : Canvas α T) (s : Option (Drawable α T)) :
    (c.put k s).get? l = c.get? l := by
  rw [get?_eq_join, get?_eq_join, slot?_put_ne h]

theorem contains_put_some {d : Drawable α T} (h : c.slot? k = some (some d)) (d' : Drawable α T)
    (l : Key) : (c.put k (some d')).contains l = c.contains l := by
  by_cases hl : l = k
  · subst hl
    rw [contains_eq, get?_put_self h, contains_eq, get?_of_slot? h, Option.isSome_some,
      Option.isSome_some]
  · rw [contains_eq, get?_put_ne hl, contains_eq]

/-! ## Appending -/

@[simp] theorem size_extend (c : Canvas α T) (s : Option (Drawable α T)) :
    (c.extend s).slots.size = c.slots.size + 1 :=
  Array.size_push s

theorem slot?_extend_of_some (h : c.slot? k = some s) (s' : Option (Drawable α T)) :
    (c.extend s').slot? k = some s := by
  rw [slot?, extend, ofSlots, Array.getElem?_push_lt (slot_lt_of_slot? h)]
  exact (Array.getElem?_eq_getElem _).symm.trans h

theorem get?_extend_of_some {d : Drawable α T} (h : c.get? k = some d)
    (s : Option (Drawable α T)) : (c.extend s).get? k = some d :=
  get?_of_slot? (slot?_extend_of_some (get?_eq_some_iff.mp h) s)

theorem contains_extend (h : c.contains k = true) (s : Option (Drawable α T)) :
    (c.extend s).contains k = true := by
  obtain ⟨d, hd⟩ := Option.isSome_iff_exists.mp h
  rw [contains_eq, get?_extend_of_some hd, Option.isSome_some]

theorem slot?_extend_ne (h : k.slot ≠ c.slots.size) (s : Option (Drawable α T)) :
    (c.extend s).slot? k = c.slot? k := by
  rw [slot?, extend, ofSlots, Array.getElem?_push, if_neg h, slot?]

theorem slot?_extend_self (h : k.slot = c.slots.size) (s : Option (Drawable α T)) :
    (c.extend s).slot? k = some s := by
  rw [slot?, extend, ofSlots, h, Array.getElem?_push_size]

theorem slot_nextKey (h : c.slots.size < UInt32.size) : c.nextKey.slot = c.slots.size :=
  Key.slot_ofSlot h

theorem nextKey_of_full (h : c.slots.size = UInt32.size) : c.nextKey = ⟨0⟩ := by
  rw [nextKey, h]
  rfl

/-- An appended slot is that of no other key, even where keys run out. -/
theorem slot?_extend_of_ne (h : k ≠ c.nextKey) (s : Option (Drawable α T)) :
    (c.extend s).slot? k = c.slot? k := by
  apply slot?_extend_ne
  intro hslot
  have hlt : c.slots.size < UInt32.size := hslot ▸ k.index.toNat_lt
  exact h (Key.slot_inj (hslot.trans (slot_nextKey hlt).symm))

theorem get?_extend_ne (h : k ≠ c.nextKey) (s : Option (Drawable α T)) :
    (c.extend s).get? k = c.get? k := by
  rw [get?_eq_join, slot?_extend_of_ne h, get?_eq_join]

theorem slot?_nextKey (h : c.slots.size < UInt32.size) : c.slot? c.nextKey = none := by
  rw [slot?, slot_nextKey h, Array.getElem?_eq_none (Nat.le_refl _)]

theorem slot?_extend_nextKey (h : c.slots.size < UInt32.size) (s : Option (Drawable α T)) :
    (c.extend s).slot? c.nextKey = some s :=
  slot?_extend_self (slot_nextKey h) s

theorem extend_put (h : c.slot? k = some s) (s' t : Option (Drawable α T)) :
    (c.extend t).put k s' = (c.put k s').extend t := by
  have hlt := slot_lt_of_slot? h
  apply Canvas.ext
  rw [← Array.toList_inj]
  simp [put, extend, ofSlots,
    List.set_append_left _ _ (show k.slot < c.slots.toList.length by simpa using hlt)]

theorem extend_put_nextKey (h : c.slots.size < UInt32.size) (s t : Option (Drawable α T)) :
    (c.extend t).put c.nextKey s = c.extend s := by
  apply Canvas.ext
  rw [put, slot_nextKey h, ← Array.toList_inj]
  simp [extend, ofSlots, List.set_append_right]

/-- The canvas with as many more copies of an object. -/
def extendBy (c : Canvas α T) (n : Nat) (d : Drawable α T) : Canvas α T :=
  ofSlots (c.slots ++ Array.replicate n (some d))

theorem extendBy_zero (c : Canvas α T) (d : Drawable α T) : c.extendBy 0 d = c :=
  Canvas.ext (by simp [extendBy, ofSlots])

theorem extendBy_extend (c : Canvas α T) (n : Nat) (d : Drawable α T) :
    (c.extend (some d)).extendBy n d = c.extendBy (n + 1) d := by
  apply Canvas.ext
  rw [← Array.toList_inj]
  simp [extendBy, extend, ofSlots, List.replicate_succ]

theorem size_extendBy_empty (n : Nat) (d : Drawable α T) :
    (empty.extendBy n d).slots.size = n := by
  simp [extendBy, ofSlots, empty]

theorem get?_extendBy_empty {n : Nat} (h : k.slot < n) (d : Drawable α T) :
    (empty.extendBy n d).get? k = some d := by
  simp [get?, extendBy, ofSlots, empty, h]

/-! ## The operations -/

theorem insert_eq (c : Canvas α T) (d : Drawable α T) :
    c.insert d = (c.nextKey, c.extend (some d)) := by
  rw [insert, nextKey, extend]
  congr 1
  exact Canvas.ext rfl

theorem remove_of_some {d : Drawable α T} (h : c.get? k = some d) :
    c.remove k = .ok (d, c.put k none) := by
  rw [remove]
  split
  · rename_i h'
    cases h.symm.trans h'
    congr 2
    exact Canvas.ext rfl
  · rename_i h'
    cases h.symm.trans h'

theorem remove_of_none (h : c.get? k = none) : c.remove k = .error (.notFound k) := by
  rw [remove]
  split
  · rename_i h'
    cases h.symm.trans h'
  · rfl

theorem restore_of_vacant (h : c.slot? k = some none) (d : Drawable α T) :
    c.restore k d = .ok (c.put k (some d)) := by
  rw [slot?] at h
  rw [restore]
  split
  · exact congrArg Except.ok (Canvas.ext rfl)
  all_goals simp_all

theorem restore_of_live {d' : Drawable α T} (h : c.slot? k = some (some d')) (d : Drawable α T) :
    c.restore k d = .error (.inUse k) := by
  rw [slot?] at h
  rw [restore]
  split <;> simp_all

theorem restore_of_none (h : c.slot? k = none) (d : Drawable α T) :
    c.restore k d = .error (.notFound k) := by
  rw [slot?] at h
  rw [restore]
  split <;> simp_all

theorem update_of_some {d : Drawable α T} (h : c.get? k = some d)
    (f : Drawable α T → Drawable α T) : c.update k f = .ok (d, c.put k (some (f d))) := by
  rw [update]
  split
  · rename_i h'
    cases h.symm.trans h'
    congr 2
    exact Canvas.ext rfl
  · rename_i h'
    cases h.symm.trans h'

theorem update_of_none (h : c.get? k = none) (f : Drawable α T → Drawable α T) :
    c.update k f = .error (.notFound k) := by
  rw [update]
  split
  · rename_i h'
    cases h.symm.trans h'
  · rfl

end Canvas

end VectorEditor
