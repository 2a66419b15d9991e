import VectorEditor.Proofs.Pointer

/-!
# Unfinished gestures

Between its press and its release a drag or a pan is known to the interaction only: the drawing and
its history are as they were before the press, whatever happens to the pointer and its settings in
between. A gesture that is given up does not come back with a later release
(`Editor.run_releases`), and a pan has nothing to commit in the first place.
-/

namespace VectorEditor

variable {α T K : Type}

namespace Interaction

theorem isDragging_of_isPanning {ix : Interaction α K} (h : ix.isPanning = true) :
    ix.isDragging = false := by
  unfold isPanning at h
  unfold isDragging
  split at h
  · rename_i hphase
    simp [hphase]
  · cases h

variable [Scalar α]

theorem release_of_not_dragging {ix : Interaction α K} (h : ix.isDragging = false) (p : Point α) :
    (ix.release p).1 = none ∧ (ix.release p).2.isDragging = false := by
  unfold release
  split
  · exact ⟨rfl, h⟩
  · exact ⟨rfl, rfl⟩
  · rename_i hphase
    simp [isDragging, hphase] at h

end Interaction

namespace Editor

namespace Request

/-- Whether the request may occur in the course of a gesture without ending it with a release. -/
def handles : Request α T → Bool
  | .press _ | .move _ | .setLock _ | .setAnchorMode _ | .setFrame _ | .setSnapping _
  | .setViewSize _ | .setMode _ | .deselect => true
  | _ => false

/-- Whether the request gives up what the pointer is engaged in. -/
def abandons : Request α T → Bool
  | .setMode _ | .deselect => true
  | _ => false

end Request

variable [Scalar α] [Region α T]

theorem perform_keeps_of_handles (e : Editor α T) {r : Request α T} (hr : r.handles = true) :
    (e.perform r).Keeps e := by
  cases r with
  | press | move | setLock | setAnchorMode | setFrame | setSnapping | setViewSize | setMode
  | deselect => exact (performed e _).keeps rfl rfl rfl
  | _ => cases hr

theorem run_of_handles (rs : List (Request α T)) (hrs : ∀ r ∈ rs, r.handles = true)
    (e : Editor α T) : (e.run rs).canvas = e.canvas ∧ (e.run rs).history = e.history := by
  induction rs generalizing e with
  | nil => exact ⟨rfl, rfl⟩
  | cons r rs ih =>
    obtain ⟨hr, hrs⟩ := List.forall_mem_cons.mp hrs
    have hkeeps := perform_keeps_of_handles e hr
    obtain ⟨hcanvas, hhistory⟩ := ih hrs (e.perform r).editor
    exact ⟨hcanvas.trans hkeeps.canvas, hhistory.trans hkeeps.history⟩

/-! ## Releases without a drag -/

theorem release_of_not_dragging {e : Editor α T} (h : e.interaction.isDragging = false)
    (p : Point α) : (e.release p).answer = .ok none ∧ (e.release p).Keeps e := by
  obtain ⟨hnone, -⟩ := Interaction.release_of_not_dragging h p
  have hreply : e.release p = (e.track () (e.interaction.release p).2).bind fun _ e =>
      { answer := .ok none, editor := e } := by
    simp only [release, hnone, Reply.bind, track]
  rw [hreply]
  exact ⟨rfl, (track_keeps e _ _).bind (.refl _ _ [])⟩

theorem isDragging_release {e : Editor α T} (h : e.interaction.isDragging = false) (p : Point α) :
    (e.release p).editor.interaction.isDragging = false := by
  rw [(release_leads e p).interaction]
  exact (Interaction.release_of_not_dragging h p).2

/-- However often the pointer is released, no drag comes back. -/
theorem run_releases {e : Editor α T} (h : e.interaction.isDragging = false)
    (points : List (Point α)) :
    let released := e.run (points.map .release)
    released.interaction.isDragging = false ∧ released.canvas = e.canvas ∧
      released.history = e.history := by
  induction points generalizing e with
  | nil => exact ⟨h, rfl, rfl⟩
  | cons p points ih =>
    obtain ⟨-, hkeeps⟩ := release_of_not_dragging h p
    obtain ⟨hdragging, hcanvas, hhistory⟩ := ih (isDragging_release h p)
    exact ⟨hdragging, hcanvas.trans hkeeps.canvas, hhistory.trans hkeeps.history⟩

theorem isDragging_of_abandons (e : Editor α T) {r : Request α T} (hr : r.abandons = true) :
    (e.perform r).editor.interaction.isDragging = false := by
  cases r with
  | setMode mode => rfl
  | deselect => rfl
  | _ => cases hr

/-- **An unfinished gesture leaves no trace** in the drawing or its history. -/
theorem unfinished_gesture_leaves_no_trace (e : Editor α T) (p : Point α)
    (during : List (Request α T)) (hduring : ∀ r ∈ during, r.handles = true) :
    let last := (e.press p).editor.run during
    (last.canvas = e.canvas ∧ last.history = e.history) ∧
    (∀ before r, during = before ++ [r] → r.abandons = true →
      ∀ (points : List (Point α)) q, ((last.run (points.map .release)).release q).answer = .ok none ∧
        ((last.run (points.map .release)).release q).Keeps e) ∧
    (last.interaction.isPanning = true →
      ∀ q, (last.release q).answer = .ok none ∧ (last.release q).Keeps e) ∧
    (e.interaction.isPanning = true →
      ∀ q, (e.release q).answer = .ok none ∧ (e.release q).Keeps e) := by
  intro last
  obtain ⟨hcanvas, hhistory⟩ : last.canvas = e.canvas ∧ last.history = e.history := by
    have hpress := press_keeps e p
    obtain ⟨hcanvas, hhistory⟩ := run_of_handles during hduring (e.press p).editor
    exact ⟨hcanvas.trans hpress.canvas, hhistory.trans hpress.history⟩
  refine ⟨⟨hcanvas, hhistory⟩, fun before r hlast hr points q => ?_, fun hpanning q => ?_,
    fun hpanning => release_of_not_dragging (Interaction.isDragging_of_isPanning hpanning)⟩
  · have hgiven : last.interaction.isDragging = false := by
      have hrun : last = (((e.press p).editor.run before).perform r).editor := by
        simp only [last, hlast, run, List.foldl_append, List.foldl_cons, List.foldl_nil]
      rw [hrun]
      exact isDragging_of_abandons _ hr
    obtain ⟨hdragging, hcanvas', hhistory'⟩ := run_releases hgiven points
    obtain ⟨hanswer, hkeeps⟩ := release_of_not_dragging hdragging q
    exact ⟨hanswer, hkeeps.canvas.trans (hcanvas'.trans hcanvas),
      hkeeps.history.trans (hhistory'.trans hhistory), hkeeps.quiet⟩
  · obtain ⟨hanswer, hkeeps⟩ :=
      release_of_not_dragging (Interaction.isDragging_of_isPanning hpanning) q
    exact ⟨hanswer, hkeeps.canvas.trans hcanvas, hkeeps.history.trans hhistory, hkeeps.quiet⟩

theorem unfinished_gesture_leaves_no_trace_given_up :
    let d : Drawable Float (Shape Float) := ⟨.rect ⟨0, 0, 10, 10⟩, .identity, 0, default⟩
    let e : Editor Float (Shape Float) := (ofSettings default).run [.add d]
    let drag : List (Request Float (Shape Float)) := [.move ⟨7, 9⟩, .press ⟨1, 1⟩]
    let during : List (Request Float (Shape Float)) := drag ++ [.setMode .pan]
    let last := (e.press ⟨5, 5⟩).editor.run during
    (∀ r ∈ during, r.handles = true) ∧
      ((e.press ⟨5, 5⟩).editor.run drag).interaction.isDragging = true ∧
      last.canvas = e.canvas ∧ last.history = e.history ∧
      ((last.run [.release ⟨7, 9⟩]).release ⟨8, 8⟩).answer = .ok none ∧
      ((last.run [.release ⟨7, 9⟩]).release ⟨8, 8⟩).Keeps e ∧
      (last.press ⟨5, 5⟩).editor.interaction.isPanning = true ∧
      ((last.press ⟨5, 5⟩).editor.release ⟨8, 8⟩).Keeps last := by
  intro d e drag during last
  have hduring : ∀ r ∈ during, r.handles = true := by simp [during, drag, Request.handles]
  have hdragging : ((e.press ⟨5, 5⟩).editor.run drag).interaction.isDragging = true := by
    decide +kernel
  have hpanning : (last.press ⟨5, 5⟩).editor.interaction.isPanning = true := by decide +kernel
  obtain ⟨⟨hcanvas, hhistory⟩, hgiven, -, -⟩ :=
    unfinished_gesture_leaves_no_trace e ⟨5, 5⟩ during hduring
  obtain ⟨-, -, hpan, -⟩ := unfinished_gesture_leaves_no_trace last ⟨5, 5⟩ [] nofun
  obtain ⟨hanswer, hkeeps⟩ := hgiven drag (.setMode .pan) rfl rfl [⟨7, 9⟩] ⟨8, 8⟩
  -- the names would have the session run again to see that the two sides are the same
  subst last
  exact ⟨hduring, hdragging, hcanvas, hhistory, hanswer, hkeeps, hpanning, (hpan hpanning _).2⟩

end Editor

end VectorEditor
