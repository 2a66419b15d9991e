import VectorEditor.Proofs.Previews
import VectorEditor.Proofs.Repaints

/-!
# What is seen

What there is to see of an editor is the objects as they are shown, the selection and the view. It
is determined by the canvas and the `Overlay`, what is seen of the interaction, and neither changes
without a request to paint (`Reply.Accounts`, `Reply.Announces`), with one exception: choosing other
axes in the course of a drag shows the dragged object elsewhere and asks for nothing.
-/

namespace VectorEditor

variable {α T K R R' : Type}

/-! ## The overlay -/

theorem Selection.clear_eq [Scalar α] {s : Selection α K} (h : s.clear.revision = s.revision) :
    s.clear = s := by
  rw [clear] at h ⊢
  split at h
  · rw [if_pos ‹_›]
  · exact absurd h (by simp)

theorem Selection.select_eq [Scalar α] [DecidableEq K] {s : Selection α K} {k : K}
    {anchor : Point α} (h : (s.select k anchor).2.revision = s.revision) :
    (s.select k anchor).2 = s := by
  rw [select] at h ⊢
  split at h
  · rw [if_pos ‹_›]
  · exact absurd h (by simp)

/-- What is seen of an interaction: the selection with its anchor, the view, and a drag in progress
with the axes along which it is meant. -/
@[ext]
structure Overlay (α K : Type) where
  selected : Option K
  anchor : Point α
  pan : Vec α
  size : Size α
  drag : Option (K × Affine α × Frame)

/-- The overlay without previews. -/
def Overlay.still (o : Overlay α K) : Overlay α K := { o with drag := none }

namespace Interaction

def overlay (ix : Interaction α K) : Overlay α K :=
  { selected := ix.selected
    anchor := ix.selection.anchor
    pan := ix.view.pan
    size := ix.view.size
    drag := ix.tentative.map fun (k, t) => (k, t, ix.frame) }

theorem still_overlay_eq {ix ix' : Interaction α K} (hselection : ix'.selection = ix.selection)
    (hview : ix'.view = ix.view) : ix'.overlay.still = ix.overlay.still := by
  simp only [overlay, selected, hselection, hview, Overlay.still]

theorem still_overlay {ix : Interaction α K} (h : ix.isDragging = false ∨ ix.selected = none) :
    ix.overlay.still = ix.overlay := by
  rw [overlay, tentative_eq_none h]
  rfl

theorem overlay_eq {ix ix' : Interaction α K} (hselection : ix'.selection = ix.selection)
    (hview : ix'.view = ix.view) (h : ix.isDragging = false ∨ ix.selected = none)
    (h' : ix'.isDragging = false ∨ ix'.selected = none) : ix'.overlay = ix.overlay := by
  rw [← still_overlay h, ← still_overlay h', still_overlay_eq hselection hview]

variable [Scalar α] {ix : Interaction α K}

/-- What is given up without a new revision of the selection had no object to drag. -/
theorem overlay_cancel (h : ix.cancel.selection.revision = ix.selection.revision) :
    ix.cancel.overlay = ix.overlay := by
  have hsame : ix.cancel.selection = ix.selection := Selection.clear_eq h
  have hnone : ix.selected = none := by
    rw [selected, ← hsame]
    exact selected_cancel ix
  exact overlay_eq hsame rfl (.inr hnone) (.inl rfl)

theorem overlay_release {p : Point α}
    (h : (ix.release p).2.selection.revision = ix.selection.revision) :
    (ix.release p).2.overlay = ix.overlay := by
  cases hphase : ix.phase with
  | idle => rw [release, hphase]
  | panning pressView basePan =>
    rw [release, hphase]
    exact overlay_eq rfl rfl (.inl (by rw [isDragging, hphase])) (.inl rfl)
  | dragging kind t =>
    have hcancel : (ix.release p).2 = ix.cancel := by
      rw [release, hphase]
      simp only
      split <;> rfl
    rw [hcancel] at h ⊢
    exact overlay_cancel h

theorem overlay_press [DecidableEq K] {p : Point α} {hit : Option (Hit α K)}
    (h : (ix.press p hit).2.selection.revision = ix.selection.revision) :
    (ix.press p hit).2.overlay = ix.overlay ∨
      (∃ k, (ix.press p hit).1 = .dragStarted k) ∧
        (ix.press p hit).2.overlay.still = ix.overlay.still := by
  rcases ix.press_cases p hit with
    hpress | ⟨hdragging, hpress | hpress | ⟨hit, _, rfl, rfl, hpress | ⟨kind, hpress⟩⟩⟩
  all_goals rw [hpress] at h ⊢
  · exact .inl rfl
  · exact .inl (overlay_eq rfl rfl (.inl hdragging) (.inl rfl))
  · exact .inl (overlay_cancel h)
  · exact .inl (overlay_eq (Selection.select_eq h) rfl (.inl hdragging) (.inl rfl))
  · exact .inr ⟨⟨_, rfl⟩, still_overlay_eq (Selection.select_eq h) rfl⟩

theorem overlay_move (ix : Interaction α K) (p : Point α) :
    (ix.move p).2.overlay = ix.overlay ∨ (∃ pan, (ix.move p).1 = .panned pan) ∨
      (∃ k t, (ix.move p).1 = .preview k t) ∧ (ix.move p).2.overlay.still = ix.overlay.still := by
  rw [move]
  split
  · exact .inl rfl
  · exact .inr (.inl ⟨_, rfl⟩)
  · split
    · exact .inr (.inr ⟨⟨_, _, rfl⟩, still_overlay_eq rfl rfl⟩)
    · exact .inl rfl

end Interaction

namespace Editor

/-- What is seen besides the objects. -/
def overlay (e : Editor α T) : Overlay α Key :=
  if e.settings.livePreview then e.interaction.overlay else e.interaction.overlay.still

theorem drag_overlay (e : Editor α T) : e.overlay.drag = e.drag? := by
  rw [overlay, drag?]
  cases e.settings.livePreview <;> rfl

theorem overlay_congr {e e' : Editor α T}
    (hlive : e'.settings.livePreview = e.settings.livePreview)
    (hoverlay : e'.interaction.overlay = e.interaction.overlay) : e'.overlay = e.overlay := by
  rw [overlay, overlay, hlive, hoverlay]

theorem overlay_of_still {e e' : Editor α T} (hlive : e.settings.livePreview = false)
    (hlive' : e'.settings.livePreview = false)
    (hstill : e'.interaction.overlay.still = e.interaction.overlay.still) :
    e'.overlay = e.overlay := by
  rw [overlay, overlay, hlive, hlive']
  exact hstill

variable [Scalar α]

/-! ## What there is to see -/

/-- What there is to see of an editor. -/
@[ext]
structure Visible (α T : Type) where
  /-- The objects with the transforms with which they are shown. -/
  object : Key → Option (Drawable α T)
  selected : Option Key
  anchor : Point α
  pan : Vec α
  size : Size α

def visible (e : Editor α T) : Visible α T where
  object k := do
    let d ← e.canvas.get? k
    return { d with transform := ← e.previewTransform k }
  selected := e.interaction.selected
  anchor := e.interaction.selection.anchor
  pan := e.interaction.view.pan
  size := e.interaction.view.size

theorem previewTransform_eq_map (e : Editor α T) (k : Key) :
    e.previewTransform k = (e.visible.object k).map (·.transform) := by
  simp only [visible, previewTransform]
  cases e.canvas.get? k <;> rfl

theorem visible_eq (e : Editor α T) :
    e.visible =
      { object := fun k => (e.canvas.get? k).map fun d =>
          { d with transform := placed e.overlay.drag k d.transform }
        selected := e.overlay.selected
        anchor := e.overlay.anchor
        pan := e.overlay.pan
        size := e.overlay.size } := by
  have hobject : e.visible.object = fun k => (e.canvas.get? k).map fun d =>
      { d with transform := placed e.overlay.drag k d.transform } := by
    funext k
    rw [drag_overlay]
    simp only [visible, previewTransform_eq]
    cases e.canvas.get? k <;> rfl
  rw [← hobject, overlay]
  cases e.settings.livePreview <;> rfl

/-- Choosing axes shows nothing else, unless they matter to the drag in progress. -/
theorem visible_setFrame_iff (e : Editor α T) (frame : Frame) :
    (e.setFrame frame).editor.visible = e.visible ↔
      ∀ k t d, e.settings.livePreview = true → e.interaction.tentative = some (k, t) →
        e.canvas.get? k = some d →
        frame.compose d.transform t = e.interaction.frame.compose d.transform t := by
  have htentative : (e.interaction.setFrame frame).tentative = e.interaction.tentative := by
    cases frame <;> rfl
  have hframe : (e.interaction.setFrame frame).frame = frame := by cases frame <;> rfl
  constructor
  · intro hvisible k t d hlive hdrag hd
    have hshown : (e.setFrame frame).editor.previewTransform k = e.previewTransform k := by
      rw [previewTransform_eq_map, hvisible, ← previewTransform_eq_map]
    rw [previewTransform_of_tentative hlive hdrag hd,
      previewTransform_of_tentative (e := (e.setFrame frame).editor) hlive
        (htentative.trans hdrag) hd] at hshown
    rw [← Option.some.inj hshown]
    exact congrArg (Frame.compose · _ _) hframe.symm
  · intro hcompose
    have hshown : ∀ k, (e.setFrame frame).editor.previewTransform k = e.previewTransform k := by
      intro k
      simp only [previewTransform, setFrame, htentative, hframe]
      refine Option.map_congr fun d hd => ?_
      cases hdrag : e.interaction.tentative with
      | none => rfl
      | some pair =>
        obtain ⟨dragged, t⟩ := pair
        simp only [Bool.and_eq_true, decide_eq_true_eq]
        split
        · rename_i h
          obtain ⟨hlive, rfl⟩ := h
          exact hcompose _ t d hlive hdrag hd
        · rfl
    simp only [visible, hshown]
    cases frame <;> rfl

/-! ## Announcements -/

/-- Without a request to paint, the overlay is as before. -/
def Reply.Announces (e : Editor α T) (q : Reply α T R) : Prop :=
  q.redraws = [] → q.editor.overlay = e.overlay

namespace Reply.Announces

omit [Scalar α]

variable {e : Editor α T} {q : Reply α T R}

theorem of_leads (h : q.Leads e e.interaction) : q.Announces e := fun _ =>
  overlay_congr h.livePreview (by rw [h.interaction])

theorem map (h : q.Announces e) (f : R → R') : (q.map f).Announces e := h

theorem bind (h : q.Announces e) {next : R → Editor α T → Reply α T R'}
    (hnext : (next q.answer q.editor).Announces q.editor) : (q.bind next).Announces e := by
  intro hnil
  obtain ⟨hfirst, hsecond⟩ := List.append_eq_nil_iff.mp hnil
  exact (hnext hsecond).trans (h hfirst)

end Reply.Announces

omit [Scalar α] in
theorem track_announces (e : Editor α T) (answer : R) {ix : Interaction α Key}
    (h : ix.selection.revision = e.interaction.selection.revision →
      ix.overlay = e.interaction.overlay) : (e.track answer ix).Announces e := by
  intro hnil
  rw [track] at hnil ⊢
  split at hnil
  · exact overlay_congr rfl (h ‹_›)
  · cases hnil

theorem deselect_announces (e : Editor α T) : e.deselect.Announces e :=
  track_announces e () Interaction.overlay_cancel

theorem setMode_announces (e : Editor α T) (mode : Mode) : (e.setMode mode).Announces e :=
  track_announces e () Interaction.overlay_cancel

theorem deselectKey_announces (e : Editor α T) (k : Key) : (e.deselectKey k).Announces e := by
  rw [deselectKey]
  split
  · exact deselect_announces e
  · exact .of_leads (.refl e () [])

theorem setViewSize_announces (e : Editor α T) (size : Size α) :
    (e.setViewSize size).Announces e := by
  rw [setViewSize]
  split
  · exact .of_leads (.refl e () [])
  · exact fun hnil => by cases hnil

theorem move_announces (e : Editor α T) (p : Point α) : (e.move p).Announces e := by
  intro hnil
  simp only [move] at hnil ⊢
  rcases e.interaction.overlay_move p with hsame | ⟨pan, houtcome⟩ | ⟨⟨k, t, houtcome⟩, hstill⟩
  · exact overlay_congr rfl hsame
  · rw [houtcome] at hnil
    cases hnil
  · rw [houtcome] at hnil
    cases hlive : e.settings.livePreview with
    | false => exact overlay_of_still hlive hlive hstill
    | true =>
      rw [hlive] at hnil
      cases hnil

variable [Region α T]

theorem press_announces (e : Editor α T) (p : Point α) : (e.press p).Announces e := by
  intro hnil
  simp only [press, track, Reply.bind, List.append_eq_nil_iff, ite_eq_left_iff, reduceCtorEq,
    imp_false, Decidable.not_not] at hnil
  obtain ⟨hrevision, hpreview⟩ := hnil
  rcases Interaction.overlay_press hrevision with hsame | ⟨⟨k, houtcome⟩, hstill⟩
  · exact overlay_congr rfl hsame
  · simp only [houtcome] at hpreview
    have hpreview : (if e.settings.livePreview then [Redraw.preview k] else []) = [] := hpreview
    cases hlive : e.settings.livePreview with
    | false => exact overlay_of_still hlive hlive hstill
    | true =>
      rw [if_pos hlive] at hpreview
      cases hpreview

theorem applyEntry_announces (e : Editor α T) (entry : Entry α) :
    (e.applyEntry entry).Announces e := by
  rw [applyEntry]
  split
  · exact .of_leads (.refl e _ [])
  · refine (deselect_announces e).bind ?_
    split
    · exact .of_leads (.refl _ _ [])
    · exact .of_leads (commitTransform_leads _ _ _ _)

theorem release_announces (e : Editor α T) (p : Point α) : (e.release p).Announces e := by
  simp only [release]
  refine (track_announces e _ Interaction.overlay_release).bind ?_
  split
  · exact .of_leads (.refl _ _ [])
  · refine Reply.Announces.bind (.of_leads (commitTransform_leads _ _ _ _)) ?_
    split <;> exact .of_leads ⟨rfl, rfl⟩

theorem StepsHistory.announces {e : Editor α T} {q : Reply α T (Except (Error α) Bool)}
    (h : e.StepsHistory q) : q.Announces e := by
  rcases h with ⟨answer, log, rfl⟩ | ⟨k, s, history, log, rfl⟩
  · exact (deselect_announces e).bind (.of_leads (.refl _ _ _))
  · exact (deselect_announces e).bind (.of_leads ⟨rfl, rfl⟩)

/-- **Every request but the choice of axes reports when the `overlay` changes.** -/
theorem perform_announces (e : Editor α T) {r : Request α T} (h : ∀ frame, r ≠ .setFrame frame) :
    (e.perform r).Announces e := by
  cases r with
  | setFrame frame => exact absurd rfl (h frame)
  | delete k =>
    exact ((deselectKey_announces e k).bind (.of_leads (commit_leads _ _ _))).map _
  | edit k item =>
    exact ((deselectKey_announces e k).bind (.of_leads (commit_leads _ _ _))).map _
  | applyEntry entry => exact (applyEntry_announces e entry).map _
  | press p => exact (press_announces e p).map _
  | move p => exact (move_announces e p).map _
  | release p => exact (release_announces e p).map _
  | undo => exact (travel_stepsHistory e .back).announces.map _
  | redo => exact (travel_stepsHistory e .forth).announces.map _
  | deselect => exact (deselect_announces e).map _
  | setMode mode => exact (setMode_announces e mode).map _
  | setViewSize size => exact (setViewSize_announces e size).map _
  | setLock | setAnchorMode | setSnapping => exact fun _ => overlay_congr rfl rfl
  | load d => exact .of_leads (perform_leads e (.load d))
  | add d => exact .of_leads (perform_leads e (.add d))
  | replaceItem k item => exact .of_leads (perform_leads e (.replaceItem k item))
  | raise k => exact .of_leads (perform_leads e (.raise k))
  | lower k => exact .of_leads (perform_leads e (.lower k))

/-- **Every change of what is seen is reported, save that of the axes in a drag** (`visible`). -/
theorem change_reported_iff (e : Editor α T) (r : Request α T) (hrecorded : r.bypasses = false) :
    ((e.perform r).editor.visible ≠ e.visible → (e.perform r).redraws ≠ []) ↔
      ∀ frame k t d, r = .setFrame frame → e.settings.livePreview = true →
        e.interaction.tentative = some (k, t) → e.canvas.get? k = some d →
        frame.compose d.transform t = e.interaction.frame.compose d.transform t := by
  by_cases hframe : ∃ frame, r = .setFrame frame
  · obtain ⟨frame, rfl⟩ := hframe
    have hiff := visible_setFrame_iff e frame
    constructor
    · intro hreported frame' k t d heq hlive htentative hd
      cases heq
      have hsame := Classical.byContradiction fun hne => hreported hne rfl
      exact hiff.mp hsame k t d hlive htentative hd
    · intro hsame hne
      exact absurd (hiff.mpr fun k t d => hsame frame k t d rfl) hne
  · have hother : ∀ frame, r ≠ .setFrame frame := fun frame heq => hframe ⟨frame, heq⟩
    refine ⟨fun _ frame _ _ _ heq => absurd heq (hother frame), fun _ hne hnil => hne ?_⟩
    have hobjects := (perform_accounts e hrecorded).get?_eq (by rw [hnil]; rfl)
    rw [visible_eq, visible_eq, hobjects, perform_announces e hother hnil]

theorem change_reported_iff_untransformed :
    let d : Drawable Float (Shape Float) := ⟨.rect ⟨0, 0, 10, 10⟩, .identity, 0, default⟩
    let e := (ofSettings default).run [.load d, .press ⟨5, 5⟩, .move ⟨15, 5⟩]
    let q := e.perform (.setFrame .object)
    (Request.setFrame .object : Request Float (Shape Float)).bypasses = false ∧
      e.interaction.isDragging = true ∧ (q.editor.visible ≠ e.visible → q.redraws ≠ []) := by
  intro d e q
  have hdragging : e.interaction.isDragging = true := by decide +kernel
  have htentative : e.interaction.tentative = some (⟨0⟩, .translate ⟨10, 0⟩) := by decide +kernel
  have hobject : e.canvas.get? ⟨0⟩ = some d := by decide +kernel
  refine ⟨rfl, hdragging, (change_reported_iff e (.setFrame .object) rfl).mpr ?_⟩
  intro frame k t d' hframe _ hdrag hd
  cases hframe
  rw [htentative] at hdrag
  cases hdrag
  rw [hobject] at hd
  cases hd
  decide +kernel

/-- An object twice its size is dragged by ten units of the canvas, then by ten of its own. -/
theorem frame_change_unreported :
    let d : Drawable Float (Shape Float) := ⟨.rect ⟨0, 0, 10, 10⟩, .scale 2 2, 0, default⟩
    let e := (ofSettings default).run [.load d, .press ⟨5, 5⟩, .move ⟨15, 5⟩]
    let q := e.perform (.setFrame .object)
    (Request.setFrame .object : Request Float (Shape Float)).bypasses = false ∧
      q.editor.visible ≠ e.visible ∧ q.redraws = [] := by
  intro d e q
  refine ⟨rfl, fun hvisible => ?_, rfl⟩
  have hshown : q.editor.previewTransform ⟨0⟩ ≠ e.previewTransform ⟨0⟩ := by decide +kernel
  rw [previewTransform_eq_map, hvisible, ← previewTransform_eq_map] at hshown
  exact hshown rfl

end Editor

end VectorEditor
