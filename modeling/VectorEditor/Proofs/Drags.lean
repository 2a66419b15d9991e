import VectorEditor.Proofs.Phases

/-!
# Drags from press to release

A drag takes its object, its anchor and the point of the press from the press, and the locks, the
grid and the frame from the moment of the release. Whatever happens in between leaves the first
alone (`Interaction.Drags`) and the second to the settings (`Interaction.terms_run`), so what a drag
commits depends on its press, its release and the settings only.
-/

namespace VectorEditor.Interaction

variable {α K : Type}

/-- Whether the event leaves a drag in progress. -/
def Event.sustains : Event α K → Bool
  | .release _ | .cancel | .setMode _ => false
  | _ => true

def Event.isMove : Event α K → Bool
  | .move _ => true
  | _ => false

theorem Event.sustains_of_isMove {e : Event α K} (h : e.isMove = true) : e.sustains = true := by
  cases e with
  | move p => rfl
  | _ => cases h

/-! ## What is taken from the settings -/

/-- The settings that a drag reads when it ends. -/
structure Terms (α : Type) where
  lock : AxisLock
  frame : Frame
  grid : Grid α
  snapping : Bool

def terms (ix : Interaction α K) : Terms α := ⟨ix.lock, ix.frame, ix.grid, ix.snapping⟩

/-- What an event makes of the settings. -/
def Event.adjust (t : Terms α) : Event α K → Terms α
  | .setLock lock => { t with lock }
  | .setFrame frame => { t with frame }
  | .setGrid grid => { t with grid }
  | .setSnapping snapping => { t with snapping }
  | _ => t

section terms

variable [Scalar α]

theorem terms_move (ix : Interaction α K) (p : Point α) : (ix.move p).2.terms = ix.terms := by
  rw [move]
  split
  · rfl
  · rfl
  · split <;> rfl

theorem terms_release (ix : Interaction α K) (p : Point α) :
    (ix.release p).2.terms = ix.terms := by
  rw [release]
  split
  · rfl
  · rfl
  · split <;> rfl

variable [DecidableEq K]

theorem terms_press (ix : Interaction α K) (p : Point α) (hit : Option (Hit α K)) :
    (ix.press p hit).2.terms = ix.terms := by
  simp only [press]
  split
  · rfl
  · split
    · rfl
    · split
      · rfl
      · split <;> rfl

theorem terms_handle (ix : Interaction α K) (e : Event α K) :
    (ix.handle e).2.terms = e.adjust ix.terms := by
  cases e with
  | press p hit => exact terms_press ix p hit
  | move p => exact terms_move ix p
  | release p => exact terms_release ix p
  | setFrame frame => cases frame <;> rfl
  | _ => rfl

theorem terms_run (ix : Interaction α K) (events : List (Event α K)) :
    (ix.run events).terms = events.foldl Event.adjust ix.terms := by
  induction events generalizing ix with
  | nil => rfl
  | cons e events ih =>
    have hrest := ih (ix.handle e).2
    rw [terms_handle] at hrest
    exact hrest

end terms

theorem foldl_adjust_filter (events : List (Event α K)) (t : Terms α) :
    (events.filter (!·.isMove)).foldl Event.adjust t = events.foldl Event.adjust t := by
  induction events generalizing t with
  | nil => rfl
  | cons e events ih =>
    cases e with
    | move p => exact ih t
    | _ => exact ih _

/-! ## What is taken from the press -/

/-- An object is being dragged since a press at a point, about an anchor. -/
structure Drags (ix : Interaction α K) (key : K) (press anchor : Point α) (kind : DragKind) :
    Prop where
  phase : ∃ t, ix.phase = .dragging kind t
  key : ix.selected = some key
  anchor : ix.selection.anchor = anchor
  press : ix.track.press = some press

namespace Drags

variable {ix : Interaction α K} {key : K} {press anchor : Point α} {kind : DragKind}

theorem isDragging (h : Drags ix key press anchor kind) : ix.isDragging = true := by
  obtain ⟨t, hphase⟩ := h.phase
  rw [Interaction.isDragging, hphase]

theorem gesture (h : Drags ix key press anchor kind) :
    ix.gesture = some { press, anchor, lock := ix.lock, grid := ix.activeGrid } := by
  rw [Interaction.gesture, h.press, h.anchor, Option.map_some]

variable [Scalar α]

theorem move (h : Drags ix key press anchor kind) (p : Point α) :
    Drags (ix.move p).2 key press anchor kind := by
  obtain ⟨t, hphase⟩ := h.phase
  rw [move_of_dragging hphase h.gesture h.key]
  exact ⟨⟨_, rfl⟩, h.key, h.anchor, (Track.press_update _ _).trans h.press⟩

theorem release (h : Drags ix key press anchor kind) (p : Point α) :
    ix.release p =
      (some
        { key
          transform :=
            Gesture.tentative { press, anchor, lock := ix.lock, grid := ix.activeGrid } kind p
          frame := ix.frame },
        ix.cancel) := by
  obtain ⟨t, hphase⟩ := h.phase
  exact release_of_dragging hphase h.gesture h.key p

variable [DecidableEq K]

/-- Nothing was selected before, so the anchor is the one resolved at the press to the last bit. -/
theorem of_press (h : ix.Coherent) (hdragging : ix.isDragging = false)
    (hmode : ix.mode.dragKind? = some kind) (p : Point α) (hit : Hit α K) :
    Drags (ix.press p (some hit)).2 hit.key p (ix.anchorMode.resolve hit.bounds) kind := by
  have hselect : ix.mode ≠ .select := by
    rw [Mode.dragKind?_eq_some_iff.mp hmode]
    nofun
  have hnone : ix.selection.key = none := h.selected_eq_none hdragging hselect
  rw [press_of_dragKind hdragging hmode, Selection.select_of_none hnone]
  exact ⟨⟨_, rfl⟩, rfl, rfl, rfl⟩

theorem handle (h : Drags ix key press anchor kind) {e : Event α K} (he : e.sustains = true) :
    Drags (ix.handle e).2 key press anchor kind := by
  cases e with
  | press p hit =>
    simp only [Interaction.handle, press_of_dragging h.isDragging]
    exact h
  | move p => exact h.move p
  | release | cancel | setMode => cases he
  | setFrame frame => cases frame <;> exact ⟨h.phase, h.key, h.anchor, h.press⟩
  | _ => exact ⟨h.phase, h.key, h.anchor, h.press⟩

theorem run (h : Drags ix key press anchor kind) {events : List (Event α K)}
    (hevents : ∀ e ∈ events, e.sustains = true) :
    Drags (ix.run events) key press anchor kind := by
  induction events generalizing ix with
  | nil => exact h
  | cons e events ih =>
    obtain ⟨he, hevents⟩ := List.forall_mem_cons.mp hevents
    exact ih (h.handle he) hevents

end Drags

/-! ## Whole drags -/

variable [Scalar α] [DecidableEq K]

/-- **A drag commits `Gesture.tentative` of its press and its release**, whatever comes between. -/
theorem drag_commits_gesture (view : View α) (before during : List (Event α K)) (kind : DragKind)
    (hdragging : ((ofView view : Interaction α K).run before).isDragging = false)
    (hmode : ((ofView view : Interaction α K).run before).mode.dragKind? = some kind)
    (hduring : ∀ e ∈ during, e.sustains = true) (p q : Point α) (hit : Hit α K) :
    let ix := (ofView view : Interaction α K).run before
    let pressed := (ix.press p (some hit)).2
    let last := pressed.run during
    (∀ es p' hit' es', during = es ++ .press p' hit' :: es' →
      ((pressed.run es).press p' hit').1 = .ignored) ∧
    (last.release q).1 = some
      { key := hit.key
        transform := Gesture.tentative
          { press := p
            anchor := ix.anchorMode.resolve hit.bounds
            lock := last.lock
            grid := if last.snapping then some last.grid else none } kind q
        frame := last.frame } ∧
    (last.release q).2.phase = .idle ∧ (last.release q).2.selected = none ∧
    ∀ other : List (Event α K), other.filter (!·.isMove) = during.filter (!·.isMove) →
      ((pressed.run other).release q).1 = (last.release q).1 := by
  intro ix pressed last
  have hstart : Drags pressed hit.key p (ix.anchorMode.resolve hit.bounds) kind :=
    .of_press (coherent_run view before) hdragging hmode p hit
  have hlast := hstart.run hduring
  refine ⟨fun es p' hit' es' hsplit => ?_, ?_, ?_, ?_, fun other hother => ?_⟩
  · have hes : ∀ e ∈ es, e.sustains = true := fun e he =>
      hduring e (hsplit ▸ List.mem_append_left _ he)
    rw [press_of_dragging (hstart.run hes).isDragging]
  · rw [hlast.release]
    rfl
  · rw [hlast.release]
    rfl
  · rw [hlast.release]
    exact Selection.key_clear _
  · have hsustains : ∀ e ∈ other, e.sustains = true := by
      intro e he
      cases hmove : e.isMove with
      | true => exact Event.sustains_of_isMove hmove
      | false =>
        have hmem : e ∈ other.filter (!·.isMove) := List.mem_filter.mpr ⟨he, by rw [hmove]; rfl⟩
        rw [hother] at hmem
        exact hduring e (List.mem_filter.mp hmem).1
    have hterms : (pressed.run other).terms = last.terms := by
      rw [terms_run, terms_run, ← foldl_adjust_filter other, hother, foldl_adjust_filter]
    simp only [terms, Terms.mk.injEq] at hterms
    obtain ⟨hlock, hframe, hgrid, hsnapping⟩ := hterms
    have hactive : (pressed.run other).activeGrid = last.activeGrid := by
      rw [activeGrid, hgrid, hsnapping, activeGrid]
    rw [(hstart.run hsustains).release, hlast.release, hlock, hframe, hactive]

theorem drag_commits_gesture_scaling :
    let hit : Hit Float UInt32 := ⟨7, ⟨0, 0, 10, 10⟩⟩
    let ix := (ofView default : Interaction Float UInt32).run
      [.setMode (.drag .scale), .setAnchorMode .center]
    let pressed := (ix.press ⟨10, 0⟩ (some hit)).2
    let settings : List (Event Float UInt32) := [.press ⟨1, 1⟩ none, .setLock ⟨true, false⟩]
    let during : List (Event Float UInt32) := .move ⟨3, 4⟩ :: settings ++ [.move ⟨9, 9⟩]
    ix.isDragging = false ∧ ix.mode.dragKind? = some .scale ∧
      (∀ e ∈ during, e.sustains = true) ∧
      ((pressed.run during).release ⟨20, 5⟩).1 = some
        { key := 7
          transform := Gesture.tentative
            { press := ⟨10, 0⟩
              anchor := AnchorMode.center.resolve hit.bounds
              lock := ⟨true, false⟩
              grid := none } .scale ⟨20, 5⟩
          frame := .world } ∧
      ((pressed.run settings).release ⟨20, 5⟩).1 = ((pressed.run during).release ⟨20, 5⟩).1 := by
  intro hit ix pressed settings during
  have hduring : ∀ e ∈ during, e.sustains = true := by
    simp [during, settings, Event.sustains]
  obtain ⟨-, hcommit, -, -, hmoves⟩ :=
    drag_commits_gesture default [.setMode (.drag .scale), .setAnchorMode .center] during .scale
      rfl rfl hduring ⟨10, 0⟩ ⟨20, 5⟩ hit
  exact ⟨rfl, rfl, hduring, hcommit, hmoves settings rfl⟩

end VectorEditor.Interaction
