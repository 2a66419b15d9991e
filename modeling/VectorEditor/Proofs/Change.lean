import VectorEditor.Change
import VectorEditor.Proofs.Slots
import VectorEditor.Proofs.Timeline

/-!
# Changes, slot by slot

A change reads and writes the slot of its own object only. `Applies` and `Reverts` say what making
a change and taking it back do to that slot and to the change itself; a change that does neither is
refused and leaves all as it is (`apply_cases`, `revert_cases`). A change that remembers its object
rightly (`Fits`) can be taken back and made again any number of times (`Change.exchange_of_apply`).
-/

namespace VectorEditor

variable {α T : Type}

namespace Change

variable [Scalar α]

/-- What making a change does to itself and to the slot of its object. -/
inductive Applies : Change α T → Option (Drawable α T) → Change α T → Option (Drawable α T) → Prop
  | transform {t : Transformation α} {d : Drawable α T} (h : t.committed = none) :
    Applies (.transformation t) (some d)
      (.transformation
        { t with committed := some (d.transform, t.frame.compose d.transform t.transform) })
      (some { d with transform := t.frame.compose d.transform t.transform })
  | transformAgain {t : Transformation α} {d : Drawable α T} {before after : Affine α}
    (h : t.committed = some (before, after)) :
    Applies (.transformation t) (some d) (.transformation t) (some { d with transform := after })
  | create {k : Key} {d : Drawable α T} :
    Applies (.creation k (some d)) none (.creation k none) (some d)
  | delete {k : Key} {d : Drawable α T} :
    Applies (.deletion k none) (some d) (.deletion k (some d)) none
  | reorder {k : Key} {old new : Int32} {d : Drawable α T} :
    Applies (.reorder k old new) (some d) (.reorder k old new) (some { d with order := new })
  | edit {k : Key} {item : T} {d : Drawable α T} :
    Applies (.edit k item) (some d) (.edit k d.item) (some { d with item })

/-- What taking a change back does to itself and to the slot of its object. -/
inductive Reverts : Change α T → Option (Drawable α T) → Change α T → Option (Drawable α T) → Prop
  | transform {t : Transformation α} {d : Drawable α T} {before after : Affine α}
    (h : t.committed = some (before, after)) :
    Reverts (.transformation t) (some d) (.transformation t) (some { d with transform := before })
  | invert {t : Transformation α} {d : Drawable α T} (h : t.committed = none) :
    Reverts (.transformation t) (some d) (.transformation t)
      (some { d with transform := t.frame.compose d.transform t.inverse })
  | create {k : Key} {d : Drawable α T} :
    Reverts (.creation k none) (some d) (.creation k (some d)) none
  | delete {k : Key} {d : Drawable α T} :
    Reverts (.deletion k (some d)) none (.deletion k none) (some d)
  | reorder {k : Key} {old new : Int32} {d : Drawable α T} :
    Reverts (.reorder k old new) (some d) (.reorder k old new) (some { d with order := old })
  | edit {k : Key} {item : T} {d : Drawable α T} :
    Reverts (.edit k item) (some d) (.edit k d.item) (some { d with item })

theorem Applies.key_eq {ch ch' : Change α T} {s s' : Option (Drawable α T)}
    (h : Applies ch s ch' s') : ch'.key = ch.key := by
  cases h <;> rfl

theorem Reverts.key_eq {ch ch' : Change α T} {s s' : Option (Drawable α T)}
    (h : Reverts ch s ch' s') : ch'.key = ch.key := by
  cases h <;> rfl

/-! ## The parts of a change -/

section parts

variable {ch : Change α T} {c : Canvas α T} {k : Key} {d : Drawable α T}

omit [Scalar α]

theorem takeOff_cases (ch : Change α T) (c : Canvas α T) (k : Key) (held : Option (Drawable α T))
    (holding : Option (Drawable α T) → Change α T) :
    (∃ err, ch.takeOff c k held holding = ch.refuse c err) ∨
      ∃ d, held = none ∧ c.slot? k = some (some d) := by
  cases held with
  | some d => exact .inl ⟨_, rfl⟩
  | none =>
    cases hd : c.get? k with
    | none => exact .inl ⟨.notFound k, by simp only [takeOff, Canvas.remove_of_none hd]⟩
    | some d => exact .inr ⟨d, rfl, Canvas.get?_eq_some_iff.mp hd⟩

theorem takeOff_of_live (h : c.slot? k = some (some d))
    (holding : Option (Drawable α T) → Change α T) :
    ch.takeOff c k none holding = ⟨holding (some d), c.put k none, none⟩ := by
  simp only [takeOff, Canvas.remove_of_some (Canvas.get?_eq_some_iff.mpr h)]

theorem putBack_cases (ch : Change α T) (c : Canvas α T) (k : Key) (held : Option (Drawable α T))
    (holding : Option (Drawable α T) → Change α T) :
    (∃ err, ch.putBack c k held holding = ch.refuse c err) ∨
      ∃ d, held = some d ∧ c.slot? k = some none := by
  by_cases hvacant : c.isVacant k = true
  · cases held with
    | none => exact .inl ⟨.inUse k, by simp only [putBack, if_pos hvacant]⟩
    | some d => exact .inr ⟨d, rfl, Canvas.isVacant_iff.mp hvacant⟩
  · exact .inl ⟨_, by simp only [putBack, if_neg hvacant]; rfl⟩

/-- At a vacant key the canvas never refuses the object that the change has given up. -/
theorem putBack_of_vacant (h : c.slot? k = some none) (d : Drawable α T)
    (holding : Option (Drawable α T) → Change α T) :
    ch.putBack c k (some d) holding = ⟨holding none, c.put k (some d), none⟩ := by
  simp only [putBack, if_pos (Canvas.isVacant_iff.mpr h), Canvas.restore_of_vacant h, settle]

theorem swapItem_of_live (h : c.slot? k = some (some d)) (item : T) :
    swapItem c k item = ⟨.edit k d.item, c.put k (some { d with item }), none⟩ := by
  have hupdate := Canvas.update_of_some (Canvas.get?_eq_some_iff.mpr h) ({ · with item })
  simp only [swapItem, Canvas.setItem, hupdate, Except.map]

theorem swapItem_of_none (h : c.get? k = none) (item : T) :
    swapItem c k item = (Change.edit k item).refuse c (.notFound k) := by
  simp only [swapItem, Canvas.setItem, Canvas.update_of_none h, Except.map]

theorem moveTo_of_live (h : c.slot? k = some (some d)) (order : Int32) :
    ch.moveTo c k order = ⟨ch, c.put k (some { d with order }), none⟩ := by
  have hupdate := Canvas.update_of_some (Canvas.get?_eq_some_iff.mpr h) ({ · with order })
  simp only [moveTo, Canvas.setOrder, hupdate, Except.map, settle]

theorem moveTo_of_none (h : c.get? k = none) (order : Int32) :
    ch.moveTo c k order = ch.refuse c (.notFound k) := by
  simp only [moveTo, Canvas.setOrder, Canvas.update_of_none h, Except.map, settle]

end parts

variable [Region α T]

theorem settle_mapTransform (ch ch' : Change α T) (c : Canvas α T) (k : Key)
    (f : Affine α → Affine α) :
    ch.settle ch' c ((c.mapTransform k f).map (·.2)) =
      match c.get? k with
      | some d => ⟨ch', c.put k (some { d with transform := f d.transform }), none⟩
      | none => ch.refuse c (.notFound k) := by
  cases hd : c.get? k with
  | none => simp only [Canvas.mapTransform, Canvas.update_of_none hd, Except.map, settle]
  | some d => simp only [Canvas.mapTransform, Canvas.update_of_some hd, Except.map, settle]

/-! ## Making and taking back -/

theorem apply_of_applies {ch ch' : Change α T} {c : Canvas α T} {s s' : Option (Drawable α T)}
    (hs : c.slot? ch.key = some s) (h : Applies ch s ch' s') :
    ch.apply c = ⟨ch', c.put ch.key s', none⟩ := by
  cases h with
  | transform h =>
    have hget := Canvas.get?_of_slot? hs
    simp only [key] at hget
    simp only [apply, Change.transform, h, hget, Canvas.applyTransform, settle_mapTransform, key]
  | transformAgain h =>
    have hget := Canvas.get?_of_slot? hs
    simp only [key] at hget
    simp only [apply, Change.transform, h, hget, Canvas.setTransform, settle_mapTransform, key]
  | create => exact putBack_of_vacant hs _ _
  | delete => exact takeOff_of_live hs _
  | reorder => exact moveTo_of_live hs _
  | edit => exact swapItem_of_live hs _

theorem revert_of_reverts {ch ch' : Change α T} {c : Canvas α T} {s s' : Option (Drawable α T)}
    (hs : c.slot? ch.key = some s) (h : Reverts ch s ch' s') :
    ch.revert c = ⟨ch', c.put ch.key s', none⟩ := by
  cases h with
  | transform h =>
    have hget := Canvas.get?_of_slot? hs
    simp only [key] at hget
    simp only [revert, transformBack, h, hget, Canvas.setTransform, settle_mapTransform, key]
  | invert h =>
    have hget := Canvas.get?_of_slot? hs
    simp only [key] at hget
    simp only [revert, transformBack, h, hget, Canvas.applyTransform, settle_mapTransform, key]
  | create => exact takeOff_of_live hs _
  | delete => exact putBack_of_vacant hs _ _
  | reorder => exact moveTo_of_live hs _
  | edit => exact swapItem_of_live hs _

/-- A change whose object is not there is refused, unless it brings the object itself. -/
theorem apply_cases (ch : Change α T) (c : Canvas α T) :
    (∃ err, ch.apply c = ch.refuse c err) ∨
      ∃ s ch' s', c.slot? ch.key = some s ∧ Applies ch s ch' s' := by
  cases ch with
  | transformation t =>
    cases hd : c.get? t.key with
    | none =>
      refine .inl ⟨.notFound t.key, ?_⟩
      cases hcommitted : t.committed with
      | none => simp only [apply, Change.transform, hcommitted, hd]
      | some pair =>
        simp only [apply, Change.transform, hcommitted, Canvas.setTransform, settle_mapTransform,
          hd]
    | some d =>
      refine .inr ⟨some d, ?_⟩
      cases hcommitted : t.committed with
      | none => exact ⟨_, _, Canvas.get?_eq_some_iff.mp hd, .transform hcommitted⟩
      | some pair => exact ⟨_, _, Canvas.get?_eq_some_iff.mp hd, .transformAgain hcommitted⟩
  | creation k held =>
    rcases putBack_cases (.creation k held) c k held (.creation k) with hrefused | ⟨d, rfl, hslot⟩
    · exact .inl hrefused
    · exact .inr ⟨none, _, _, hslot, .create⟩
  | deletion k held =>
    rcases takeOff_cases (.deletion k held) c k held (.deletion k) with hrefused | ⟨d, rfl, hslot⟩
    · exact .inl hrefused
    · exact .inr ⟨some d, _, _, hslot, .delete⟩
  | reorder k old new =>
    cases hd : c.get? k with
    | none => exact .inl ⟨_, moveTo_of_none hd new⟩
    | some d => exact .inr ⟨some d, _, _, Canvas.get?_eq_some_iff.mp hd, .reorder⟩
  | edit k item =>
    cases hd : c.get? k with
    | none => exact .inl ⟨_, swapItem_of_none hd item⟩
    | some d => exact .inr ⟨some d, _, _, Canvas.get?_eq_some_iff.mp hd, .edit⟩

theorem revert_cases (ch : Change α T) (c : Canvas α T) :
    (∃ err, ch.revert c = ch.refuse c err) ∨
      ∃ s ch' s', c.slot? ch.key = some s ∧ Reverts ch s ch' s' := by
  cases ch with
  | transformation t =>
    cases hd : c.get? t.key with
    | none =>
      refine .inl ⟨.notFound t.key, ?_⟩
      cases hcommitted : t.committed with
      | none =>
        simp only [revert, transformBack, hcommitted, Canvas.applyTransform, settle_mapTransform,
          hd]
      | some pair =>
        simp only [revert, transformBack, hcommitted, Canvas.setTransform, settle_mapTransform, hd]
    | some d =>
      refine .inr ⟨some d, ?_⟩
      cases hcommitted : t.committed with
      | none => exact ⟨_, _, Canvas.get?_eq_some_iff.mp hd, .invert hcommitted⟩
      | some pair => exact ⟨_, _, Canvas.get?_eq_some_iff.mp hd, .transform hcommitted⟩
  | creation k held =>
    rcases takeOff_cases (.creation k held) c k held (.creation k) with hrefused | ⟨d, rfl, hslot⟩
    · exact .inl hrefused
    · exact .inr ⟨some d, _, _, hslot, .create⟩
  | deletion k held =>
    rcases putBack_cases (.deletion k held) c k held (.deletion k) with hrefused | ⟨d, rfl, hslot⟩
    · exact .inl hrefused
    · exact .inr ⟨none, _, _, hslot, .delete⟩
  | reorder k old new =>
    cases hd : c.get? k with
    | none => exact .inl ⟨_, moveTo_of_none hd old⟩
    | some d => exact .inr ⟨some d, _, _, Canvas.get?_eq_some_iff.mp hd, .reorder⟩
  | edit k item =>
    cases hd : c.get? k with
    | none => exact .inl ⟨_, swapItem_of_none hd item⟩
    | some d => exact .inr ⟨some d, _, _, Canvas.get?_eq_some_iff.mp hd, .edit⟩

theorem apply_eq_ok {ch ch' : Change α T} {c c' : Canvas α T} (h : ch.apply c = ⟨ch', c', none⟩) :
    ∃ s s', c.slot? ch.key = some s ∧ Applies ch s ch' s' ∧ c' = c.put ch.key s' := by
  rcases ch.apply_cases c with ⟨err, hrefused⟩ | ⟨s, ch₁, s', hslot, happlies⟩
  · rw [hrefused, refuse, Step.mk.injEq] at h
    cases h.2.2
  · rw [apply_of_applies hslot happlies, Step.mk.injEq] at h
    obtain ⟨rfl, rfl, -⟩ := h
    exact ⟨s, s', hslot, happlies, rfl⟩

theorem revert_eq_ok {ch ch' : Change α T} {c c' : Canvas α T}
    (h : ch.revert c = ⟨ch', c', none⟩) :
    ∃ s s', c.slot? ch.key = some s ∧ Reverts ch s ch' s' ∧ c' = c.put ch.key s' := by
  rcases ch.revert_cases c with ⟨err, hrefused⟩ | ⟨s, ch₁, s', hslot, hreverts⟩
  · rw [hrefused, refuse, Step.mk.injEq] at h
    cases h.2.2
  · rw [revert_of_reverts hslot hreverts, Step.mk.injEq] at h
    obtain ⟨rfl, rfl, -⟩ := h
    exact ⟨s, s', hslot, hreverts, rfl⟩

/-! ## Back and forth -/

/-- What the change remembers of its object is so: the place in the painting order before, and the
transform before if the change has been made once. -/
def Fits (ch : Change α T) (s : Option (Drawable α T)) : Prop :=
  match ch, s with
  | .transformation t, some d => ∀ before after, t.committed = some (before, after) →
      before = d.transform
  | .reorder _ old _, some d => old = d.order
  | _, _ => True

/-- A change as it is asked for: it holds nothing, has not been made yet and knows its object. -/
def New (ch : Change α T) (c : Canvas α T) : Prop :=
  match ch with
  | .transformation t => t.transform.inverse? = .ok t.inverse ∧ t.committed = none
  | .creation _ _ => False
  | .deletion _ held => held = none
  | .reorder k old _ => ∃ d, c.get? k = some d ∧ old = d.order
  | .edit _ _ => True

omit [Region α T] in
theorem New.fits {ch : Change α T} {c : Canvas α T} (h : ch.New c) {s : Option (Drawable α T)}
    (hslot : c.slot? ch.key = some s) : ch.Fits s := by
  cases s with
  | none => cases ch <;> exact trivial
  | some d =>
    cases ch with
    | transformation t =>
      intro before after hcommitted
      rw [h.2] at hcommitted
      cases hcommitted
    | reorder k old new =>
      obtain ⟨d', hd', rfl⟩ := h
      have hd : c.get? k = some d := Canvas.get?_eq_some_iff.mpr hslot
      rw [hd] at hd'
      rw [Fits, Option.some.inj hd']
    | creation k held => exact trivial
    | deletion k held => exact trivial
    | edit k item => exact trivial

omit [Region α T] in
theorem Applies.exchange {ch ch' : Change α T} {s s' : Option (Drawable α T)}
    (h : Applies ch s ch' s') (hfits : ch.Fits s) :
    ∃ ch'', Reverts ch' s' ch'' s ∧ Applies ch'' s ch' s' := by
  cases h with
  | transform h => exact ⟨_, .transform rfl, .transformAgain rfl⟩
  | transformAgain h =>
    obtain rfl := hfits _ _ h
    exact ⟨_, .transform h, .transformAgain h⟩
  | create => exact ⟨_, .create, .create⟩
  | delete => exact ⟨_, .delete, .delete⟩
  | reorder =>
    obtain rfl := hfits
    exact ⟨_, .reorder, .reorder⟩
  | edit => exact ⟨_, .edit, .edit⟩

/-- **A change that fits can be taken back and made again** (`Exchange`). -/
theorem exchange_of_apply {ch ch' : Change α T} {c c' : Canvas α T}
    (h : ch.apply c = ⟨ch', c', none⟩)
    (hfits : ∀ s, c.slot? ch.key = some s → ch.Fits s) : ∃ ch'', Exchange ch' c' ch'' c := by
  obtain ⟨s, s', hslot, happlies, rfl⟩ := apply_eq_ok h
  obtain ⟨ch'', hreverts, hagain⟩ := happlies.exchange (hfits s hslot)
  have hkey := happlies.key_eq
  have hkey' := hreverts.key_eq.trans hkey
  refine ⟨ch'', ?_, ?_⟩
  · have hback := revert_of_reverts (hkey ▸ Canvas.slot?_put_self hslot s') hreverts
    rw [hkey, Canvas.put_put, Canvas.put_of_slot? hslot] at hback
    exact hback
  · have hforth := apply_of_applies (hkey' ▸ hslot) hagain
    rw [hkey'] at hforth
    exact hforth

end Change

section exchange

variable [Scalar α] [Region α T] {ch ch' : Change α T} {c c' : Canvas α T}

theorem Exchange.size_eq (h : Exchange ch c ch' c') : c'.slots.size = c.slots.size := by
  obtain ⟨s, s', -, -, rfl⟩ := Change.revert_eq_ok h.1
  rw [Canvas.size_put]

theorem Exchange.extend (h : Exchange ch c ch' c') (t : Option (Drawable α T)) :
    Exchange ch (c.extend t) ch' (c'.extend t) := by
  obtain ⟨s, s', hslot, hreverts, hc'⟩ := Change.revert_eq_ok h.1
  obtain ⟨u, u', hslot', happlies, hc⟩ := Change.apply_eq_ok h.2
  refine ⟨?_, ?_⟩
  · have hback := Change.revert_of_reverts (Canvas.slot?_extend_of_some hslot t) hreverts
    rw [Canvas.extend_put hslot, ← hc'] at hback
    exact hback
  · have hforth := Change.apply_of_applies (Canvas.slot?_extend_of_some hslot' t) happlies
    rw [Canvas.extend_put hslot', ← hc] at hforth
    exact hforth

theorem Exchange.creation (h : c.slots.size < UInt32.size) (d : Drawable α T) :
    Exchange (Change.creation c.nextKey none) (c.extend (some d))
      (Change.creation c.nextKey (some d)) (c.extend none) := by
  refine ⟨?_, ?_⟩
  · have hback : (Change.creation c.nextKey none).revert (c.extend (some d)) = _ :=
      Change.revert_of_reverts (Canvas.slot?_extend_nextKey h (some d)) .create
    rw [Change.key, Canvas.extend_put_nextKey h] at hback
    exact hback
  · have hforth : (Change.creation c.nextKey (some d)).apply (c.extend none) = _ :=
      Change.apply_of_applies (Canvas.slot?_extend_nextKey h none) .create
    rw [Change.key, Canvas.extend_put_nextKey h] at hforth
    exact hforth

end exchange

end VectorEditor
