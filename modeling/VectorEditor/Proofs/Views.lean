import VectorEditor.Proofs.Configuration

/-!
# Views of a session

A view keeps the transforms between the canvas and the window and builds them anew only where its
size or its pan offset change. `View.Reachable` are the views that come about in this way, and the
transforms of such a view are those of its present size and offset (`View.Reachable.eq_build`). An
interaction changes its view in no other way (`Interaction.reachable_view_run`).
-/

namespace VectorEditor

variable {α K : Type} [Scalar α]

namespace View

/-- The views that a new one becomes by being resized and panned. -/
inductive Reachable : View α → Prop
  | ofSize (size : Size α) : Reachable (ofSize size)
  | setSize {v : View α} (h : Reachable v) (size : Size α) : Reachable (v.setSize size)
  | setPan {v : View α} (h : Reachable v) (pan : Vec α) : Reachable (v.setPan pan)

theorem Reachable.panBy {v : View α} (h : v.Reachable) (delta : Vec α) : (v.panBy delta).Reachable :=
  h.setPan _

theorem Reachable.eq_build {v : View α} (h : v.Reachable) : v = build v.size v.pan := by
  induction h with
  | ofSize size => rfl
  | setSize h size ih =>
    rw [View.setSize]
    split
    · exact ih
    · rfl
  | setPan h pan ih =>
    rw [View.setPan]
    split
    · exact ih
    · rfl

theorem pan_setSize (v : View α) (size : Size α) : (v.setSize size).pan = v.pan := by
  unfold setSize
  split <;> rfl

end View

namespace Interaction

theorem reachable_view_move {ix : Interaction α K} (h : ix.view.Reachable) (p : Point α) :
    (ix.move p).2.view.Reachable := by
  unfold move
  split
  · exact h
  · exact h.setPan _
  · split <;> exact h

variable [DecidableEq K]

theorem reachable_view_handle {ix : Interaction α K} (h : ix.view.Reachable) {e : Event α K}
    (he : ∀ view, e = .setView view → view.Reachable) : (ix.handle e).2.view.Reachable := by
  cases e with
  | press p hit =>
    rw [handle, view_press]
    exact h
  | move p => exact reachable_view_move h p
  | release p =>
    rw [handle, view_release]
    exact h
  | setFrame frame => cases frame <;> exact h
  | setViewSize size => exact h.setSize size
  | setViewPan pan => exact h.setPan pan
  | panViewBy delta => exact h.panBy delta
  | setView view => exact he view rfl
  | cancel | setMode | setLock | setAnchorMode | setSnapping | setGrid => exact h

/-- Every view of a session is reachable, provided that those brought in from outside are. -/
theorem reachable_view_run {ix : Interaction α K} (h : ix.view.Reachable)
    {events : List (Event α K)} (hevents : ∀ view, .setView view ∈ events → view.Reachable) :
    (ix.run events).view.Reachable := by
  induction events generalizing ix with
  | nil => exact h
  | cons e events ih =>
    have he : ∀ view, e = .setView view → view.Reachable := by
      rintro view rfl
      exact hevents view List.mem_cons_self
    exact ih (reachable_view_handle h he) fun view hmem => hevents view (List.mem_cons_of_mem e hmem)

end Interaction

end VectorEditor
