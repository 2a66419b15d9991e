import VectorEditor.Proofs.Drags
import VectorEditor.Proofs.Pointer

/-!
# Previews

While an object is dragged it is shown with the transform of the drag on top of its own, and a
release commits a transform that is computed anew. `Interaction.release_move` says that the two
agree if the pointer is released where it was moved to last, and `Editor.preview_is_committed` that
the object then stays where it was shown. No other object is shown elsewhere than it is.
-/

namespace VectorEditor

variable {α T K : Type}

namespace Interaction

variable [Scalar α] {ix : Interaction α K}

omit [Scalar α] in
theorem tentative_eq_none (h : ix.isDragging = false ∨ ix.selected = none) :
    ix.tentative = none := by
  rw [tentative]
  split
  · rename_i hphase
    rcases h with hdragging | hselected
    · rw [isDragging, hphase] at hdragging
      cases hdragging
    · rw [hselected, Option.map_none]
  · rfl

omit [Scalar α] in
theorem exists_phase_of_isDragging (h : ix.isDragging = true) :
    ∃ kind t, ix.phase = .dragging kind t := by
  rw [isDragging] at h
  split at h
  · exact ⟨_, _, ‹_›⟩
  · cases h

theorem Coherent.exists_drags (h : ix.Coherent) (hdragging : ix.isDragging = true) {key : K}
    (hkey : ix.selected = some key) :
    ∃ press kind, Drags ix key press ix.selection.anchor kind := by
  obtain ⟨kind, t, hphase⟩ := exists_phase_of_isDragging hdragging
  obtain ⟨-, hpress, -⟩ := h.suits hphase
  obtain ⟨press, hpress⟩ := Option.isSome_iff_exists.mp hpress
  exact ⟨press, kind, ⟨t, hphase⟩, hkey, rfl, hpress⟩

/-- A move changes none of what `tentative` depends on, so the release after it commits the same. -/
theorem release_move (h : ix.Coherent) (hdragging : ix.isDragging = true) {key : K}
    (hkey : ix.selected = some key) (p : Point α) :
    ∃ t, (ix.move p).2.tentative = some (key, t) ∧
      ((ix.move p).2.release p).1 = some ⟨key, t, (ix.move p).2.frame⟩ := by
  obtain ⟨press, kind, hdrags⟩ := h.exists_drags hdragging hkey
  obtain ⟨t, hphase⟩ := hdrags.phase
  have hmoved := hdrags.move p
  have hterms := terms_move ix p
  simp only [terms, Terms.mk.injEq] at hterms
  obtain ⟨hlock, -, hgrid, hsnapping⟩ := hterms
  have hactive : (ix.move p).2.activeGrid = ix.activeGrid := by
    rw [activeGrid, hgrid, hsnapping, activeGrid]
  refine ⟨_, ?_, by rw [hmoved.release]⟩
  rw [hlock, hactive, move_of_dragging hphase hdrags.gesture hkey, tentative]
  simp only [selected] at hkey ⊢
  rw [hkey, Option.map_some]

end Interaction

namespace Editor

/-- What a drag with live previews is doing: its object, its transform and the axes along which that
is meant. -/
def drag? (e : Editor α T) : Option (Key × Affine α × Frame) :=
  if e.settings.livePreview then
    e.interaction.tentative.map fun (k, t) => (k, t, e.interaction.frame)
  else none

variable [Scalar α]

/-- The transform with which an object of the given transform is shown in the course of a drag. -/
def placed (drag : Option (Key × Affine α × Frame)) (k : Key) (t : Affine α) : Affine α :=
  match drag with
  | some (dragged, s, frame) => if dragged = k then frame.compose t s else t
  | none => t

theorem previewTransform_eq (e : Editor α T) (k : Key) :
    e.previewTransform k = (e.canvas.get? k).map fun d => placed e.drag? k d.transform := by
  rw [previewTransform, drag?]
  cases e.interaction.tentative with
  | none => cases e.settings.livePreview <;> rfl
  | some pair =>
    cases e.settings.livePreview with
    | false => rfl
    | true => simp [placed]

theorem previewTransform_of_tentative {e : Editor α T} {k : Key} {t : Affine α}
    {d : Drawable α T} (hpreview : e.settings.livePreview = true)
    (htentative : e.interaction.tentative = some (k, t)) (hd : e.canvas.get? k = some d) :
    e.previewTransform k = some (e.interaction.frame.compose d.transform t) := by
  rw [previewTransform_eq, drag?, if_pos hpreview, htentative, hd]
  simp [placed]

theorem previewTransform_of_ne {e : Editor α T} {k : Key} (h : e.interaction.selected ≠ some k) :
    e.previewTransform k = (e.canvas.get? k).map (·.transform) := by
  rw [previewTransform_eq, drag?]
  cases htentative : e.interaction.tentative with
  | none => cases e.settings.livePreview <;> rfl
  | some pair =>
    have hne : pair.1 ≠ k := fun heq =>
      h (heq ▸ Interaction.selected_of_tentative (t := pair.2) htentative)
    cases e.settings.livePreview with
    | false => rfl
    | true => simp [placed, hne]

variable [Region α T]

theorem get?_of_transforming {c c' : Canvas α T} {k : Key} {t : Affine α} {frame : Frame}
    {ch ch' : Change α T} (h : transforming k t frame = some ch)
    (happly : ch.apply c = ⟨ch', c', none⟩) :
    (∃ d, c.get? k = some d ∧
      c'.get? k = some { d with transform := frame.compose d.transform t }) ∧
    ∀ l, l ≠ k → c'.get? l = c.get? l := by
  obtain ⟨inverse, -, rfl⟩ := transforming_eq_some h
  obtain ⟨s, s', hslot, happlies, rfl⟩ := Change.apply_eq_ok happly
  refine ⟨?_, fun l hl => Canvas.get?_put_ne hl _ _⟩
  cases happlies with
  | @transform _ d _ =>
    exact ⟨d, Canvas.get?_of_slot? hslot, Canvas.get?_put_self hslot _⟩
  | transformAgain hcommitted => cases hcommitted

theorem get?_of_release {e : Editor α T} {p : Point α} {commit : Commit α Key} {k : Key}
    (hcommit : (e.interaction.release p).1 = some commit)
    (hanswer : (e.release p).answer = .ok (some k)) :
    (∃ d, e.canvas.get? commit.key = some d ∧
      (e.release p).editor.canvas.get? commit.key =
        some { d with transform := commit.frame.compose d.transform commit.transform }) ∧
    ∀ l, l ≠ commit.key → (e.release p).editor.canvas.get? l = e.canvas.get? l := by
  cases release_attempt e p with
  | kept _ hkept =>
    rw [hanswer] at hkept
    cases hkept
  | made hask happly =>
    simp only [asked, hcommit, Option.bind_eq_bind, Option.bind_some] at hask
    exact get?_of_transforming hask happly

theorem run_moves (e : Editor α T) (points : List (Point α)) :
    (e.run (points.map .move)).canvas = e.canvas ∧
      (e.run (points.map .move)).interaction.selection = e.interaction.selection := by
  induction points generalizing e with
  | nil => exact ⟨rfl, rfl⟩
  | cons p points ih =>
    obtain ⟨hcanvas, hselection⟩ := ih (e.move p).editor
    exact ⟨hcanvas.trans (move_keeps e p).canvas,
      hselection.trans (Interaction.selection_move e.interaction p)⟩

theorem selected_release_ne {e : Editor α T} {l : Key} (h : e.interaction.selected ≠ some l)
    (p : Point α) : (e.release p).editor.interaction.selected ≠ some l := by
  rw [(release_leads e p).interaction]
  rcases e.interaction.selected_release p with hnone | hsame
  · rw [hnone]
    nofun
  · rw [hsame]
    exact h

/-- **What is previewed is what is committed** (`previewTransform`). -/
theorem preview_is_committed (settings : Settings α) (rs : List (Request α T)) (k : Key)
    (p : Point α) :
    let e := (ofSettings settings).run rs
    let moved := (e.move p).editor
    let released := (moved.release p).editor
    e.settings.livePreview = true → e.interaction.isDragging = true →
    e.interaction.selected = some k → (moved.release p).answer = .ok (some k) →
    (∃ d, released.canvas.get? k = some d ∧ moved.previewTransform k = some d.transform) ∧
    ∀ l, l ≠ k →
      (released.canvas.get? l = e.canvas.get? l ∧
        released.previewTransform l = (e.canvas.get? l).map (·.transform)) ∧
      ∀ points : List (Point α), (e.run (points.map .move)).canvas.get? l = e.canvas.get? l ∧
        (e.run (points.map .move)).previewTransform l = (e.canvas.get? l).map (·.transform) := by
  intro e moved released hpreview hdragging hselected hanswer
  obtain ⟨t, htentative, hcommit⟩ :=
    Interaction.release_move (coherent_session settings rs) hdragging hselected p
  obtain ⟨⟨d, hd, hd'⟩, hothers⟩ := get?_of_release (e := moved) hcommit hanswer
  refine ⟨⟨_, hd', previewTransform_of_tentative (e := moved) hpreview htentative hd⟩,
    fun l hl => ?_⟩
  have hother : ∀ points : List (Point α),
      (e.run (points.map .move)).interaction.selected ≠ some l := by
    intro points hl'
    rw [Interaction.selected, (e.run_moves points).2] at hl'
    exact hl (Option.some.inj (hl'.symm.trans hselected))
  refine ⟨⟨hothers l hl, ?_⟩, fun points => ?_⟩
  · have hreleased : released.interaction.selected ≠ some l := selected_release_ne (hother [p]) p
    rw [previewTransform_of_ne hreleased]
    exact congrArg (Option.map _) (hothers l hl)
  · rw [previewTransform_of_ne (hother points), (e.run_moves points).1]
    exact ⟨rfl, rfl⟩

theorem preview_is_committed_scaling :
    let d : Drawable Float (Shape Float) := ⟨.rect ⟨0, 0, 10, 10⟩, .scale 2 2, 0, default⟩
    let rs : List (Request Float (Shape Float)) :=
      [.load d, .load { d with order := -1 }, .setMode (.drag .scale), .setFrame .object,
        .setLock ⟨true, false⟩, .press ⟨5, 5⟩, .move ⟨7, 9⟩]
    let e := (ofSettings default).run rs
    let moved := (e.move ⟨38, 42⟩).editor
    let released := (moved.release ⟨38, 42⟩).editor
    (e.settings.livePreview = true ∧ e.interaction.isDragging = true ∧
      e.interaction.selected = some ⟨0⟩ ∧ (moved.release ⟨38, 42⟩).answer = .ok (some ⟨0⟩)) ∧
      (∃ d', released.canvas.get? ⟨0⟩ = some d' ∧ moved.previewTransform ⟨0⟩ = some d'.transform) ∧
      released.previewTransform ⟨1⟩ = (e.canvas.get? ⟨1⟩).map (·.transform) := by
  intro d rs e moved released
  have hpreview : e.settings.livePreview = true := by decide +kernel
  have hdragging : e.interaction.isDragging = true := by decide +kernel
  have hselected : e.interaction.selected = some ⟨0⟩ := by decide +kernel
  have hanswer : (moved.release ⟨38, 42⟩).answer = .ok (some ⟨0⟩) := by
    have hsome : (moved.release ⟨38, 42⟩).answer.toOption = some (some ⟨0⟩) := by decide +kernel
    cases hrelease : (moved.release ⟨38, 42⟩).answer with
    | ok k? =>
      rw [hrelease] at hsome
      rw [Option.some.inj hsome]
    | error err =>
      rw [hrelease] at hsome
      cases hsome
  obtain ⟨hkey, hothers⟩ :=
    preview_is_committed default rs ⟨0⟩ ⟨38, 42⟩ hpreview hdragging hselected hanswer
  -- the names would have the session run again to see that the two sides are the same
  subst released moved e
  exact ⟨⟨hpreview, hdragging, hselected, hanswer⟩, hkey, (hothers ⟨1⟩ (by decide)).1.2⟩

end Editor

end VectorEditor
