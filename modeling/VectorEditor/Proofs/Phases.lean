import VectorEditor.Interaction.Event

/-!
# Phases of the interaction

What the pointer is engaged in has to agree with three other pieces of the state: the mode, the
selection and the track of the pointer. `Interaction.Coherent` says how, every event keeps it, and
so a move in the course of a drag always previews a transform and a release always commits one.
-/

namespace VectorEditor

variable {α K : Type}

/-! ## The selection -/

namespace Selection

variable [Scalar α]

/-- Nothing is anchored anywhere but in the origin. -/
def AtRest (s : Selection α K) : Prop := s.key = none → s.anchor = Point.origin

@[simp] theorem key_clear (s : Selection α K) : s.clear.key = none := by
  rw [clear]
  split
  · rename_i hempty
    simp only [Bool.and_eq_true, Option.isNone_iff_eq_none] at hempty
    exact hempty.1
  · rfl

/-- Where clearing changes nothing, the anchor may only be equal to the origin as a number. -/
theorem AtRest.clear {s : Selection α K} (h : s.AtRest) : s.clear.AtRest := by
  intro _
  rw [Selection.clear]
  split
  · rename_i hempty
    simp only [Bool.and_eq_true, Option.isNone_iff_eq_none] at hempty
    exact h hempty.1
  · rfl

variable [DecidableEq K]

@[simp] theorem key_select (s : Selection α K) (k : K) (anchor : Point α) :
    (s.select k anchor).2.key = some k := by
  rw [select]
  split
  · rename_i hsame
    simp only [Bool.and_eq_true, beq_iff_eq] at hsame
    exact hsame.1
  · rfl

theorem AtRest.select (s : Selection α K) (k : K) (anchor : Point α) :
    (s.select k anchor).2.AtRest := by
  intro hnone
  rw [key_select] at hnone
  cases hnone

theorem select_of_none {s : Selection α K} (h : s.key = none) (k : K) (anchor : Point α) :
    (s.select k anchor).2 = ⟨some k, anchor, s.revision + 1⟩ := by
  simp [select, h]

end Selection

theorem Track.press_update [Scalar α] (t : Track α) (p : Point α) :
    (t.update p).2.press = t.press := by
  rw [update]
  split <;> rfl

theorem Mode.dragKind?_eq_some_iff {mode : Mode} {kind : DragKind} :
    mode.dragKind? = some kind ↔ mode = .drag kind := by
  cases mode <;> simp [dragKind?]

namespace Interaction

/-! ## What the phases ask for -/

/-- What a phase asks of the mode, the selection and the track of the pointer. -/
def Suits (ix : Interaction α K) : Phase α → Prop
  | .idle => ix.track = .none ∧ (ix.selected.isSome = true → ix.mode = .select)
  | .panning _ _ => ix.mode = .pan ∧ ix.track.press.isSome = true ∧ ix.selected = none
  | .dragging kind _ =>
    ix.mode.dragKind? = some kind ∧ ix.track.press.isSome = true ∧ ix.selected.isSome = true

/-- **Phase, mode, selection and track agree.** -/
structure Coherent [Scalar α] (ix : Interaction α K) : Prop where
  phase : ix.Suits ix.phase
  selection : ix.selection.AtRest

section

variable [Scalar α] {ix : Interaction α K}

theorem Coherent.suits (h : ix.Coherent) {phase : Phase α} (hphase : ix.phase = phase) :
    ix.Suits phase :=
  hphase ▸ h.phase

theorem coherent_ofView (view : View α) : Coherent (ofView view : Interaction α K) :=
  ⟨⟨rfl, nofun⟩, fun _ => rfl⟩

theorem Coherent.congr (h : ix.Coherent) {ix' : Interaction α K} (hmode : ix'.mode = ix.mode)
    (hselection : ix'.selection = ix.selection) (htrack : ix'.track = ix.track)
    (hphase : ix'.phase = ix.phase) : ix'.Coherent := by
  obtain ⟨mode, lock, anchorMode, frame, grid, snapping, selection, track, phase, view⟩ := ix
  obtain ⟨mode', lock', anchorMode', frame', grid', snapping', selection', track', phase', view'⟩ :=
    ix'
  cases hmode
  cases hselection
  cases htrack
  cases hphase
  exact ⟨h.phase, h.selection⟩

theorem Coherent.setFrame (h : ix.Coherent) (frame : Frame) : (ix.setFrame frame).Coherent := by
  cases frame <;> exact h.congr rfl rfl rfl rfl

theorem Coherent.cancel (h : ix.Coherent) : ix.cancel.Coherent := by
  refine ⟨⟨rfl, fun hselected => ?_⟩, h.selection.clear⟩
  simp [selected, Interaction.cancel] at hselected

theorem Coherent.setMode (h : ix.Coherent) (mode : Mode) : (ix.setMode mode).Coherent := by
  refine ⟨⟨rfl, fun hselected => ?_⟩, h.selection.clear⟩
  simp [selected, Interaction.setMode, Interaction.cancel] at hselected

theorem Coherent.selected_eq_none (h : ix.Coherent) (hdragging : ix.isDragging = false)
    (hmode : ix.mode ≠ .select) : ix.selected = none := by
  cases hphase : ix.phase with
  | idle =>
    cases hselected : ix.selected with
    | none => rfl
    | some key =>
      have hselect := (h.suits hphase).2 (by rw [hselected, Option.isSome_some])
      exact absurd hselect hmode
  | panning pressView basePan => exact (h.suits hphase).2.2
  | dragging kind t => simp [isDragging, hphase] at hdragging

theorem Coherent.track_eq_none (h : ix.Coherent) (hdragging : ix.isDragging = false)
    (hmode : ix.mode ≠ .pan) : ix.track = .none := by
  cases hphase : ix.phase with
  | idle => exact (h.suits hphase).1
  | panning pressView basePan => exact absurd (h.suits hphase).1 hmode
  | dragging kind t => simp [isDragging, hphase] at hdragging

/-! ## Moves and releases -/

theorem move_of_dragging {kind : DragKind} {t : Affine α} {g : Gesture α} {key : K}
    (hphase : ix.phase = .dragging kind t) (hgesture : ix.gesture = some g)
    (hkey : ix.selected = some key) (p : Point α) :
    ix.move p = (.preview key (g.tentative kind p),
      { ix with
        phase := .dragging kind (g.tentative kind p)
        track := (ix.track.update p).2 }) := by
  simp only [move, hphase, hgesture, hkey]

theorem release_of_dragging {kind : DragKind} {t : Affine α} {g : Gesture α} {key : K}
    (hphase : ix.phase = .dragging kind t) (hgesture : ix.gesture = some g)
    (hkey : ix.selected = some key) (p : Point α) :
    ix.release p = (some ⟨key, g.tentative kind p, ix.frame⟩, ix.cancel) := by
  simp only [release, hphase, hgesture, hkey]

theorem Coherent.exists_gesture (h : ix.Coherent) {kind : DragKind} {t : Affine α}
    (hphase : ix.phase = .dragging kind t) :
    ∃ key g, ix.selected = some key ∧ ix.gesture = some g := by
  obtain ⟨-, hpress, hselected⟩ := h.suits hphase
  obtain ⟨press, hpress⟩ := Option.isSome_iff_exists.mp hpress
  obtain ⟨key, hkey⟩ := Option.isSome_iff_exists.mp hselected
  exact ⟨key, _, hkey, by rw [gesture, hpress, Option.map_some]⟩

theorem Coherent.move (h : ix.Coherent) (p : Point α) : (ix.move p).2.Coherent := by
  have hpressed : (ix.track.update p).2.press = ix.track.press := Track.press_update _ _
  cases hphase : ix.phase with
  | idle =>
    simp only [Interaction.move, hphase]
    exact h
  | panning pressView basePan =>
    obtain ⟨hmode, hpress, hselected⟩ := h.suits hphase
    rw [← hpressed] at hpress
    simp only [Interaction.move, hphase]
    exact ⟨⟨hmode, hpress, hselected⟩, h.selection⟩
  | dragging kind t =>
    obtain ⟨key, g, hkey, hgesture⟩ := h.exists_gesture hphase
    obtain ⟨hmode, hpress, hselected⟩ := h.suits hphase
    rw [← hpressed] at hpress
    rw [move_of_dragging hphase hgesture hkey]
    exact ⟨⟨hmode, hpress, hselected⟩, h.selection⟩

theorem Coherent.release (h : ix.Coherent) (p : Point α) : (ix.release p).2.Coherent := by
  cases hphase : ix.phase with
  | idle =>
    simp only [Interaction.release, hphase]
    exact h
  | panning pressView basePan =>
    obtain ⟨-, -, hselected⟩ := h.suits hphase
    simp only [Interaction.release, hphase]
    refine ⟨⟨rfl, fun hsome => ?_⟩, h.selection⟩
    simp only [selected] at hselected hsome
    rw [hselected] at hsome
    cases hsome
  | dragging kind t =>
    obtain ⟨key, g, hkey, hgesture⟩ := h.exists_gesture hphase
    rw [release_of_dragging hphase hgesture hkey]
    exact h.cancel

end

/-! ## Presses -/

variable [Scalar α] [DecidableEq K] {ix : Interaction α K}

theorem press_of_dragging (h : ix.isDragging = true) (p : Point α) (hit : Option (Hit α K)) :
    ix.press p hit = (.ignored, ix) := by
  simp only [press, h, if_true]

theorem press_of_dragKind (hdragging : ix.isDragging = false) {kind : DragKind}
    (hmode : ix.mode.dragKind? = some kind) (p : Point α) (hit : Hit α K) :
    ix.press p (some hit) = (.dragStarted hit.key,
      { ix with
        selection := (ix.selection.select hit.key (ix.anchorMode.resolve hit.bounds)).2
        phase := .dragging kind .identity
        track := .start p }) := by
  have hpan : ix.mode ≠ .pan := by
    rw [Mode.dragKind?_eq_some_iff.mp hmode]
    nofun
  simp only [press, hdragging, Bool.false_eq_true, if_false, if_neg hpan, hmode, startDrag]

theorem press_of_select (hdragging : ix.isDragging = false) (hmode : ix.mode = .select)
    (p : Point α) (hit : Hit α K) :
    ix.press p (some hit) = (.selected hit.key,
      { ix with
        selection := (ix.selection.select hit.key (ix.anchorMode.resolve hit.bounds)).2
        phase := .idle }) := by
  simp [press, hdragging, hmode, Mode.dragKind?]

theorem press_of_pan (hdragging : ix.isDragging = false) (hmode : ix.mode = .pan) (p : Point α)
    (hit : Option (Hit α K)) : ix.press p hit = (.panStarted, ix.startPan p) := by
  simp [press, hdragging, hmode]

theorem press_of_none (hdragging : ix.isDragging = false) (hmode : ix.mode ≠ .pan) (p : Point α) :
    ix.press p none = (.cleared, ix.cancel) := by
  simp [press, hdragging, hmode]

theorem Coherent.press (h : ix.Coherent) (p : Point α) (hit : Option (Hit α K)) :
    (ix.press p hit).2.Coherent := by
  cases hdragging : ix.isDragging with
  | true =>
    rw [press_of_dragging hdragging]
    exact h
  | false =>
    cases hmode : ix.mode with
    | pan =>
      have hselected := h.selected_eq_none hdragging (by rw [hmode]; nofun)
      rw [press_of_pan hdragging hmode]
      exact ⟨⟨hmode, rfl, hselected⟩, h.selection⟩
    | select =>
      have hpan : ix.mode ≠ .pan := by
        rw [hmode]
        nofun
      cases hit with
      | none =>
        rw [press_of_none hdragging hpan]
        exact h.cancel
      | some hit =>
        have htrack := h.track_eq_none hdragging hpan
        rw [press_of_select hdragging hmode]
        exact ⟨⟨htrack, fun _ => hmode⟩, .select _ _ _⟩
    | drag kind =>
      have hkind : ix.mode.dragKind? = some kind := Mode.dragKind?_eq_some_iff.mpr hmode
      cases hit with
      | none =>
        rw [press_of_none hdragging (by rw [hmode]; nofun)]
        exact h.cancel
      | some hit =>
        rw [press_of_dragKind hdragging hkind]
        exact ⟨⟨hkind, rfl, by simp [selected]⟩, .select _ _ _⟩

/-! ## Sessions -/

/-- **Every event keeps phase, mode, selection and track in agreement** (`Coherent`). -/
theorem Coherent.handle (h : ix.Coherent) (e : Event α K) : (ix.handle e).2.Coherent := by
  cases e with
  | press p hit => exact h.press p hit
  | move p => exact h.move p
  | release p => exact h.release p
  | cancel => exact h.cancel
  | setMode mode => exact h.setMode mode
  | setFrame frame => exact h.setFrame frame
  | setLock | setAnchorMode | setSnapping | setGrid | setViewSize | setViewPan | panViewBy
  | setView => exact h.congr rfl rfl rfl rfl

theorem Coherent.run (h : ix.Coherent) (events : List (Event α K)) : (ix.run events).Coherent := by
  induction events generalizing ix with
  | nil => exact h
  | cons e events ih => exact ih (h.handle e)

theorem coherent_run (view : View α) (events : List (Event α K)) :
    ((ofView view : Interaction α K).run events).Coherent :=
  (coherent_ofView view).run events

/-- **The phase agrees with mode, selection and track** after every session. -/
theorem phases_agree (view : View α) (events : List (Event α K)) :
    let ix := (ofView view : Interaction α K).run events
    (∀ kind t, ix.phase = .dragging kind t →
      ix.mode.dragKind? = some kind ∧ ix.track.press.isSome = true ∧
      ∃ key, ix.selected = some key ∧
        (∀ p, ∃ preview, (ix.move p).1 = .preview key preview) ∧
        ∀ p, ∃ commit, (ix.release p).1 = some commit ∧ commit.key = key) ∧
    (∀ pressView basePan, ix.phase = .panning pressView basePan →
      ix.mode = .pan ∧ ix.track.press.isSome = true ∧ ix.selected = none) ∧
    (ix.phase = .idle → ix.track.press = none ∧ ix.track.last = none ∧
      (ix.selected.isSome = true → ix.mode = .select)) ∧
    (ix.selected = none → ix.selection.anchor = Point.origin) := by
  intro ix
  have h : ix.Coherent := coherent_run view events
  refine ⟨fun kind t hphase => ?_, fun pressView basePan hphase => h.suits hphase,
    fun hphase => ?_, h.selection⟩
  · obtain ⟨hmode, hpress, -⟩ := h.suits hphase
    obtain ⟨key, g, hkey, hgesture⟩ := h.exists_gesture hphase
    refine ⟨hmode, hpress, key, hkey, fun p => ?_, fun p => ?_⟩
    · rw [move_of_dragging hphase hgesture hkey]
      exact ⟨_, rfl⟩
    · rw [release_of_dragging hphase hgesture hkey]
      exact ⟨_, rfl, rfl⟩
  · obtain ⟨htrack, hmode⟩ := h.suits hphase
    rw [htrack]
    exact ⟨rfl, rfl, hmode⟩

theorem phases_agree_rotating :
    let hit : Hit Float UInt32 := ⟨7, ⟨0, 0, 10, 10⟩⟩
    let events : List (Event Float UInt32) :=
      [.setMode .pan, .press ⟨1, 1⟩ (some hit), .setMode (.drag .rotate), .press ⟨5, 0⟩ (some hit),
        .press ⟨2, 2⟩ none]
    let ix := (ofView default : Interaction Float UInt32).run events
    ix.phase = .dragging .rotate .identity ∧ ix.mode.dragKind? = some .rotate ∧
      ix.track.press.isSome = true ∧
      ∃ key, ix.selected = some key ∧
        (∀ p, ∃ preview, (ix.move p).1 = .preview key preview) ∧
        ∀ p, ∃ commit, (ix.release p).1 = some commit ∧ commit.key = key :=
  ⟨rfl, (phases_agree default _).1 .rotate .identity rfl⟩

end Interaction

end VectorEditor
