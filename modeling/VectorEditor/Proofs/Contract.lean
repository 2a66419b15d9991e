import VectorEditor.Proofs.Change

/-!
# The contract of changes

What a change promises to the history that keeps it. If it is refused, nothing happens, neither to
the canvas nor to the change. What it has done it can take back, and what it has taken back it can
do again, and every slot is then as it was; for this the change has to find its object as it
remembers it, before (`Change.Fits`) or after (`Change.FitsAfter`). A transformation that has been
made once remembers both transforms of its object for good, whatever becomes of the canvas in the
meantime (`Change.follow`), and writes one or the other, never a transform computed anew.
-/

namespace VectorEditor.Change

variable {α T : Type}

/-- The change has been made before, as far as it shows. Only a transformation shows it. -/
def WasMade (ch : Change α T) : Prop :=
  match ch with
  | .transformation t => t.committed.isSome = true
  | _ => True

/-- What the change remembers of its object after it was made is so: the place in the painting
order, or the transform. -/
def FitsAfter (ch : Change α T) (d : Drawable α T) : Prop :=
  match ch with
  | .transformation t => ∀ before after, t.committed = some (before, after) → after = d.transform
  | .reorder _ _ new => new = d.order
  | _ => True

theorem fits_none (ch : Change α T) : ch.Fits none := by
  cases ch <;> exact trivial

variable [Scalar α]

section slots

variable {ch ch' : Change α T} {s s' : Option (Drawable α T)} {t : Transformation α}
  {before after : Affine α}

theorem Reverts.applies (h : Reverts ch s ch' s') (hmade : ch.WasMade)
    (hfits : ∀ d, s = some d → ch.FitsAfter d) : Applies ch' s' ch s := by
  cases h with
  | transform h =>
    obtain rfl := hfits _ rfl _ _ h
    exact .transformAgain h
  -- the inverse is for a transformation that was never made, which has nothing to do again
  | invert h => simp [WasMade, h] at hmade
  | create => exact .create
  | delete => exact .delete
  | reorder =>
    obtain rfl := hfits _ rfl
    exact .reorder
  | edit => exact .edit

theorem applies_of_committed (ht : t.committed = some (before, after))
    (h : Applies (.transformation t) s ch' s') :
    ch' = .transformation t ∧ s'.map (·.transform) = some after := by
  cases h with
  | transform h =>
    rw [ht] at h
    cases h
  | transformAgain h =>
    rw [ht] at h
    cases h
    exact ⟨rfl, rfl⟩

theorem reverts_of_committed (ht : t.committed = some (before, after))
    (h : Reverts (.transformation t) s ch' s') :
    ch' = .transformation t ∧ s'.map (·.transform) = some before := by
  cases h with
  | transform h =>
    rw [ht] at h
    cases h
    exact ⟨rfl, rfl⟩
  | invert h =>
    rw [ht] at h
    cases h

end slots

variable [Region α T] {ch ch' : Change α T} {c c' : Canvas α T}

/-! ## Refusals -/

theorem eq_of_apply_failed {err : Canvas.Error} (h : ch.apply c = ⟨ch', c', some err⟩) :
    ch' = ch ∧ c' = c := by
  rcases ch.apply_cases c with ⟨err', hrefused⟩ | ⟨s, ch₁, s', hslot, happlies⟩
  · rw [hrefused, refuse, Step.mk.injEq] at h
    exact ⟨h.1.symm, h.2.1.symm⟩
  · rw [apply_of_applies hslot happlies, Step.mk.injEq] at h
    cases h.2.2

theorem eq_of_revert_failed {err : Canvas.Error} (h : ch.revert c = ⟨ch', c', some err⟩) :
    ch' = ch ∧ c' = c := by
  rcases ch.revert_cases c with ⟨err', hrefused⟩ | ⟨s, ch₁, s', hslot, hreverts⟩
  · rw [hrefused, refuse, Step.mk.injEq] at h
    exact ⟨h.1.symm, h.2.1.symm⟩
  · rw [revert_of_reverts hslot hreverts, Step.mk.injEq] at h
    cases h.2.2

/-! ## There and back -/

theorem revert_of_apply (h : ch.apply c = ⟨ch', c', none⟩)
    (hfits : ∀ d, c.get? ch.key = some d → ch.Fits (some d)) :
    ∃ ch'', ch'.revert c' = ⟨ch'', c, none⟩ := by
  obtain ⟨ch'', hexchange⟩ := exchange_of_apply h fun s hslot => by
    cases s with
    | none => exact ch.fits_none
    | some d => exact hfits d (Canvas.get?_eq_some_iff.mpr hslot)
  exact ⟨ch'', hexchange.1⟩

theorem apply_of_revert (h : ch.revert c = ⟨ch', c', none⟩) (hmade : ch.WasMade)
    (hfits : ∀ d, c.get? ch.key = some d → ch.FitsAfter d) : ch'.apply c' = ⟨ch, c, none⟩ := by
  obtain ⟨s, s', hslot, hreverts, rfl⟩ := revert_eq_ok h
  have happlies : Applies ch' s' ch s := hreverts.applies hmade fun d hd =>
    hfits d (Canvas.get?_eq_some_iff.mpr (hd ▸ hslot))
  have hkey := hreverts.key_eq
  have hforth := apply_of_applies (hkey ▸ Canvas.slot?_put_self hslot s') happlies
  rw [hkey, Canvas.put_put, Canvas.put_of_slot? hslot] at hforth
  exact hforth

/-! ## The life of a transformation -/

/-- What happens in the life of a change: it is made or taken back, or the canvas is changed by
other means into any canvas whatever. -/
inductive Move (α T : Type) where
  | make
  | takeBack
  | become (c : Canvas α T)

/-- What remains of a change and its canvas after one thing has happened. -/
def Move.step (ch : Change α T) (c : Canvas α T) : Move α T → Result α T
  | .make => ch.apply c
  | .takeBack => ch.revert c
  | .become c' => ⟨ch, c', none⟩

/-- What remains of a change and its canvas after all that has happened. -/
def follow (ch : Change α T) (c : Canvas α T) : List (Move α T) → Change α T × Canvas α T
  | [] => (ch, c)
  | m :: ms => follow (m.step ch c).command (m.step ch c).target ms

section transformation

variable {t : Transformation α} {before after : Affine α}

theorem transform_of_apply (ht : t.committed = some (before, after))
    (h : (Change.transformation t).apply c = ⟨ch', c', none⟩) :
    ch' = .transformation t ∧ (c'.get? t.key).map (·.transform) = some after := by
  obtain ⟨s, s', hslot, happlies, rfl⟩ := apply_eq_ok h
  obtain ⟨hch, hs⟩ := applies_of_committed ht happlies
  exact ⟨hch, (congrArg _ (Canvas.get?_put_self hslot s')).trans hs⟩

theorem transform_of_revert (ht : t.committed = some (before, after))
    (h : (Change.transformation t).revert c = ⟨ch', c', none⟩) :
    ch' = .transformation t ∧ (c'.get? t.key).map (·.transform) = some before := by
  obtain ⟨s, s', hslot, hreverts, rfl⟩ := revert_eq_ok h
  obtain ⟨hch, hs⟩ := reverts_of_committed ht hreverts
  exact ⟨hch, (congrArg _ (Canvas.get?_put_self hslot s')).trans hs⟩

theorem command_step (ht : t.committed = some (before, after)) (c : Canvas α T) (m : Move α T) :
    (m.step (.transformation t) c).command = .transformation t := by
  cases m with
  | make =>
    rcases happly : (Change.transformation t).apply c with ⟨ch', c', failure⟩
    simp only [Move.step, happly]
    cases failure with
    | none => exact (transform_of_apply ht happly).1
    | some err => exact (eq_of_apply_failed happly).1
  | takeBack =>
    rcases hrevert : (Change.transformation t).revert c with ⟨ch', c', failure⟩
    simp only [Move.step, hrevert]
    cases failure with
    | none => exact (transform_of_revert ht hrevert).1
    | some err => exact (eq_of_revert_failed hrevert).1
  | become c' => rfl

theorem follow_transformation (ht : t.committed = some (before, after)) (c : Canvas α T)
    (ms : List (Move α T)) : (follow (.transformation t) c ms).1 = .transformation t := by
  induction ms generalizing c with
  | nil => rfl
  | cons m ms ih =>
    rw [follow, command_step ht]
    exact ih _

/-- A transformation takes down `committed` the first time it is made, and keeps to it later. -/
theorem committed_of_apply (h : (Change.transformation t).apply c = ⟨ch', c', none⟩) :
    ∃ d, c.get? t.key = some d ∧
      ch' = .transformation { t with
        committed := t.committed.or
          (some (d.transform, t.frame.compose d.transform t.transform)) } := by
  obtain ⟨s, s', hslot, happlies, -⟩ := apply_eq_ok h
  cases happlies with
  | @transform _ d hnone => exact ⟨d, Canvas.get?_of_slot? hslot, by rw [hnone, Option.none_or]⟩
  | @transformAgain _ d _ _ hsome =>
    refine ⟨d, Canvas.get?_of_slot? hslot, ?_⟩
    rw [hsome, Option.some_or, ← hsome]

end transformation

/-! ## The contract -/

/-- **Changes keep the contract of commands** (`Fits`, `FitsAfter`, `follow`). -/
theorem keeps_contract (ch : Change α T) (c : Canvas α T) :
    (∀ ch' c' err, ch.apply c = ⟨ch', c', some err⟩ ∨ ch.revert c = ⟨ch', c', some err⟩ →
      ch' = ch ∧ c' = c) ∧
    (∀ ch' c', ch.apply c = ⟨ch', c', none⟩ →
      (∀ d, c.get? ch.key = some d → ch.Fits (some d)) →
      ∃ ch'', ch'.revert c' = ⟨ch'', c, none⟩) ∧
    (∀ ch' c', ch.revert c = ⟨ch', c', none⟩ → ch.WasMade →
      (∀ d, c.get? ch.key = some d → ch.FitsAfter d) → ch'.apply c' = ⟨ch, c, none⟩) ∧
    ∀ t ch' c', ch = .transformation t → ch.apply c = ⟨ch', c', none⟩ →
      ∃ t' before after, ch' = .transformation t' ∧ t'.committed = some (before, after) ∧
        (∀ pair, t.committed = some pair → pair = (before, after)) ∧
        (t.committed = none → (c.get? t.key).map (·.transform) = some before ∧
          after = t.frame.compose before t.transform) ∧
        ∀ ms : List (Move α T), (follow ch' c' ms).1 = ch' ∧
          (∀ ch'' c'', (follow ch' c' ms).1.apply (follow ch' c' ms).2 = ⟨ch'', c'', none⟩ →
            (c''.get? t.key).map (·.transform) = some after) ∧
          (∀ ch'' c'', (follow ch' c' ms).1.revert (follow ch' c' ms).2 = ⟨ch'', c'', none⟩ →
            (c''.get? t.key).map (·.transform) = some before) := by
  refine ⟨?_, fun ch' c' h => revert_of_apply h, fun ch' c' h => apply_of_revert h, ?_⟩
  · rintro ch' c' err (h | h)
    · exact eq_of_apply_failed h
    · exact eq_of_revert_failed h
  · rintro t ch' c' rfl h
    obtain ⟨d, hd, rfl⟩ := committed_of_apply h
    -- the two transforms are those taken down the first time, which may be this time
    obtain ⟨before, after, hpair⟩ : ∃ before after, t.committed.or
        (some (d.transform, t.frame.compose d.transform t.transform)) = some (before, after) := by
      cases t.committed with
      | none => exact ⟨_, _, rfl⟩
      | some pair => exact ⟨_, _, rfl⟩
    refine ⟨_, before, after, rfl, hpair, ?_, ?_, fun ms => ?_⟩
    · rintro pair hsome
      rw [hsome, Option.some_or] at hpair
      exact Option.some.inj hpair
    · intro hnone
      rw [hnone, Option.none_or] at hpair
      cases hpair
      rw [hd]
      exact ⟨rfl, rfl⟩
    · rw [follow_transformation hpair]
      exact ⟨rfl, fun ch'' c'' happly => (transform_of_apply hpair happly).2,
        fun ch'' c'' hrevert => (transform_of_revert hpair hrevert).2⟩

theorem keeps_contract_moved :
    let d : Drawable Float (Shape Float) := ⟨.rect ⟨0, 0, 10, 10⟩, .scale 2 2, 0, default⟩
    let t : Transformation Float :=
      ⟨⟨0⟩, .translate ⟨4, 0⟩, .translate ⟨-4, 0⟩, .world, none⟩
    let ch : Change Float (Shape Float) := .transformation t
    let c : Canvas Float (Shape Float) := .ofSlots #[some d, none]
    let elsewhere : Canvas Float (Shape Float) :=
      .ofSlots #[some { d with transform := .identity }]
    let ch' := (ch.apply c).command
    let c' := (ch.apply c).target
    (ch.apply c).failure = none ∧ (∃ ch'', ch'.revert c' = ⟨ch'', c, none⟩) ∧
      (ch'.revert c').command.apply (ch'.revert c').target = ⟨ch', c', none⟩ ∧
      (follow ch' c' [.takeBack, .become .empty, .make, .become elsewhere]).1 = ch' ∧
      ((ch'.apply elsewhere).target.get? ⟨0⟩).map (·.transform) = some ⟨2, 0, 0, 2, 4, 0⟩ ∧
      ch'.apply .empty = ⟨ch', .empty, some (.notFound ⟨0⟩)⟩ := by
  intro d t ch c elsewhere ch' c'
  have happly : ch.apply c = ⟨ch', c', none⟩ := by decide +kernel
  have hrevert : ch'.revert c' = ⟨ch', c, none⟩ := by decide +kernel
  have hagain : ch'.apply elsewhere = ⟨ch', (ch'.apply elsewhere).target, none⟩ := by
    decide +kernel
  have hgone : ch'.apply .empty = ⟨ch', .empty, some (.notFound ⟨0⟩)⟩ := by decide +kernel
  have hch' : ch' = .transformation
      { t with committed := some (⟨2, 0, 0, 2, 0, 0⟩, ⟨2, 0, 0, 2, 4, 0⟩) } := by
    decide +kernel
  have hget : c'.get? ch'.key = some { d with transform := ⟨2, 0, 0, 2, 4, 0⟩ } := by
    decide +kernel
  -- what the first application gives is known by now, and is not to be computed again
  clear_value ch' c'
  obtain ⟨-, hback, -, hlife⟩ := keeps_contract ch c
  obtain ⟨-, -, hforth, -⟩ := keeps_contract ch' c'
  have hfits : ∀ d, c.get? ch.key = some d → ch.Fits (some d) := by
    rintro d' - before after ⟨⟩
  have hmade : ch'.WasMade := by
    rw [hch']
    rfl
  have hfitsAfter : ∀ d, c'.get? ch'.key = some d → ch'.FitsAfter d := by
    intro d' hd'
    rw [hget] at hd'
    cases hd'
    rw [hch']
    rintro before after ⟨⟩
    rfl
  obtain ⟨t', before, after, ht', hpair, -, -, hmoves⟩ := hlife t ch' c' rfl happly
  have hafter : after = ⟨2, 0, 0, 2, 4, 0⟩ := by
    rw [hch'] at ht'
    cases ht'
    cases hpair
    rfl
  obtain ⟨hkept, hmake, -⟩ := hmoves [.takeBack, .become .empty, .make, .become elsewhere]
  rw [hkept] at hmake
  refine ⟨by rw [happly], hback ch' c' happly hfits, ?_, hkept, ?_, hgone⟩
  · rw [hrevert]
    exact hforth ch' c hrevert hmade hfitsAfter
  · rw [hmake _ _ hagain, hafter]

end VectorEditor.Change
