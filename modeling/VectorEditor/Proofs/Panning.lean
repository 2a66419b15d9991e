import VectorEditor.Proofs.AffineMaps
import VectorEditor.Proofs.Views

/-!
# Panning

While the canvas is panned, every move of the pointer changes the view through which the next move
is seen. In exact arithmetic this loop is stable, because the view maps a point of the canvas back
to the very place in the window where the pointer is (`View.Reachable.toView_toWorld`). So a pan
keeps the place of its press (`Interaction.Pans`) and each move sets the offset anew from it, and
what the offset is in the end depends on the press and the last move only
(`Interaction.pan_follows_pointer`).
-/

namespace VectorEditor

variable {α K : Type}

namespace View

variable [ExactScalar α] {v : View α}

theorem pan_setPan (v : View α) (pan : Vec α) : (v.setPan pan).pan = pan := by
  unfold setPan
  split
  · rename_i hsame
    exact eq_of_beq hsame
  · rfl

/-- The view turns the canvas upside down and does not stretch it. -/
theorem Reachable.determinant_worldToView (h : v.Reachable) :
    v.worldToView.determinant = -1 := by
  rw [h.eq_build]
  simp [build, Affine.determinant_mul]

theorem Reachable.determinant_ne_zero (h : v.Reachable) : v.worldToView.determinant ≠ 0 := by
  rw [h.determinant_worldToView]
  exact neg_ne_zero.mpr one_ne_zero

theorem Reachable.viewToWorld_eq (h : v.Reachable) : v.viewToWorld = v.worldToView.inverse := by
  rw [h.eq_build]
  rfl

theorem Reachable.toWorld_toView (h : v.Reachable) (p : Point α) : v.toWorld (v.toView p) = p := by
  rw [toWorld, h.viewToWorld_eq]
  exact Affine.inverse_apply_apply h.determinant_ne_zero p

theorem Reachable.toView_toWorld (h : v.Reachable) (p : Point α) : v.toView (v.toWorld p) = p := by
  rw [toWorld, h.viewToWorld_eq]
  exact Affine.apply_inverse_apply h.determinant_ne_zero p

end View

/-! ## The course of a pan -/

/-- What may happen in the course of a pan: the pointer is moved to a place in the window, the locks
change or the window does. -/
inductive PanEvent (α : Type) where
  | moveTo (place : Point α)
  | setLock (lock : AxisLock)
  | resize (size : Size α)

namespace PanEvent

def isMove : PanEvent α → Bool
  | .moveTo _ => true
  | _ => false

/-- What an event makes of the locks. -/
def adjust (lock : AxisLock) : PanEvent α → AxisLock
  | .setLock lock => lock
  | _ => lock

theorem foldl_adjust_filter (es : List (PanEvent α)) (lock : AxisLock) :
    (es.filter (!·.isMove)).foldl adjust lock = es.foldl adjust lock := by
  induction es generalizing lock with
  | nil => rfl
  | cons e es ih =>
    cases e with
    | moveTo place => exact ih lock
    | setLock lock' => exact ih lock'
    | resize size => exact ih lock

/-- The event as the interaction is told of it. The point of the canvas at the place of the pointer
is the one that the view shows there at that moment. -/
def seen [Scalar α] (view : View α) : PanEvent α → Interaction.Event α K
  | .moveTo place => .move (view.toWorld place)
  | .setLock lock => .setLock lock
  | .resize size => .setViewSize size

end PanEvent

namespace Interaction

/-- The interaction after what happens in the course of a pan. -/
def panThrough [Scalar α] [DecidableEq K] (ix : Interaction α K) (es : List (PanEvent α)) :
    Interaction α K :=
  es.foldl (fun ix e => (ix.handle (e.seen ix.view)).2) ix

/-- The canvas is being panned since a press at a place in the window, with the offset there was
then. -/
structure Pans [Scalar α] (ix : Interaction α K) (place : Point α) (base : Vec α) : Prop where
  phase : ix.phase = .panning place base
  view : ix.view.Reachable

theorem Coherent.isDragging_of_pan [Scalar α] {ix : Interaction α K} (h : ix.Coherent)
    (hmode : ix.mode = .pan) : ix.isDragging = false := by
  cases hphase : ix.phase with
  | idle | panning pressView basePan => simp only [isDragging, hphase]
  | dragging kind t =>
    have hkind := (h.suits hphase).1
    rw [hmode] at hkind
    cases hkind

section

variable [Scalar α] [DecidableEq K]

theorem lock_panThrough (ix : Interaction α K) (es : List (PanEvent α)) :
    (ix.panThrough es).lock = es.foldl PanEvent.adjust ix.lock := by
  induction es generalizing ix with
  | nil => rfl
  | cons e es ih =>
    have hlock : (ix.handle (e.seen ix.view)).2.lock = e.adjust ix.lock := by
      cases e with
      | moveTo place => exact congrArg Terms.lock (terms_move ix (ix.view.toWorld place))
      | setLock lock => rfl
      | resize size => rfl
    rw [List.foldl_cons, ← hlock]
    exact ih _

theorem pan_panThrough_of_not_isMove (ix : Interaction α K) {es : List (PanEvent α)}
    (hes : ∀ e ∈ es, e.isMove = false) : (ix.panThrough es).view.pan = ix.view.pan := by
  induction es generalizing ix with
  | nil => rfl
  | cons e es ih =>
    obtain ⟨he, hes⟩ := List.forall_mem_cons.mp hes
    have hpan : (ix.handle (e.seen ix.view)).2.view.pan = ix.view.pan := by
      cases e with
      | moveTo place => cases he
      | setLock lock => rfl
      | resize size => exact View.pan_setSize _ _
    exact (ih _ hes).trans hpan

end

variable [ExactScalar α] {ix : Interaction α K} {place : Point α} {base : Vec α}

namespace Pans

/-- What a move to a place in the window does. -/
theorem move (h : ix.Pans place base) (q : Point α) :
    ix.move (ix.view.toWorld q) = (.panned (base + ix.lock.constrain (q - place)),
      { ix with
        view := ix.view.setPan (base + ix.lock.constrain (q - place))
        track := (ix.track.update (ix.view.toWorld q)).2 }) := by
  simp only [Interaction.move, h.phase, h.view.toView_toWorld, View.pan_setPan]

variable [DecidableEq K]

theorem of_press (hview : ix.view.Reachable) (hdragging : ix.isDragging = false)
    (hmode : ix.mode = .pan) (place : Point α) (hit : Option (Hit α K)) :
    (ix.press (ix.view.toWorld place) hit).2.Pans place ix.view.pan := by
  rw [press_of_pan hdragging hmode]
  refine ⟨?_, hview⟩
  rw [startPan, hview.toView_toWorld]

theorem handle (h : ix.Pans place base) (e : PanEvent α) :
    (ix.handle (e.seen ix.view)).2.Pans place base := by
  cases e with
  | moveTo q =>
    simp only [PanEvent.seen, Interaction.handle, h.move]
    exact ⟨h.phase, h.view.setPan _⟩
  | setLock lock => exact ⟨h.phase, h.view⟩
  | resize size => exact ⟨h.phase, h.view.setSize size⟩

theorem panThrough (h : ix.Pans place base) (es : List (PanEvent α)) :
    (ix.panThrough es).Pans place base := by
  induction es generalizing ix with
  | nil => exact h
  | cons e es ih => exact ih (h.handle e)

theorem pan_panThrough (h : ix.Pans place base) (es : List (PanEvent α)) (q : Point α)
    {rest : List (PanEvent α)} (hrest : ∀ e ∈ rest, e.isMove = false) :
    (ix.panThrough (es ++ .moveTo q :: rest)).view.pan =
      base + (es.foldl PanEvent.adjust ix.lock).constrain (q - place) := by
  let now := ix.panThrough es
  calc (ix.panThrough (es ++ .moveTo q :: rest)).view.pan
      = ((now.move (now.view.toWorld q)).2.panThrough rest).view.pan := by
        rw [Interaction.panThrough, List.foldl_append]
        rfl
    _ = (now.move (now.view.toWorld q)).2.view.pan := pan_panThrough_of_not_isMove _ hrest
    _ = base + now.lock.constrain (q - place) := by rw [(h.panThrough es).move, View.pan_setPan]
    _ = base + (es.foldl PanEvent.adjust ix.lock).constrain (q - place) := by
        rw [lock_panThrough]

end Pans

/-! ## Whole pans -/

variable [DecidableEq K]

/-- **Panning follows the pointer**: the offset is that of the press and the last `moveTo`. -/
theorem pan_follows_pointer (view : View α) (before : List (Event α K)) (hview : view.Reachable)
    (hviews : ∀ view, .setView view ∈ before → view.Reachable)
    (hmode : ((ofView view : Interaction α K).run before).mode = .pan) (place : Point α)
    (hit : Option (Hit α K)) :
    let ix := (ofView view : Interaction α K).run before
    let pressed := (ix.press (ix.view.toWorld place) hit).2
    (∀ v : View α, v.Reachable → ∀ p, v.toWorld (v.toView p) = p ∧ v.toView (v.toWorld p) = p) ∧
    (∀ es, (pressed.panThrough es).view.Reachable) ∧
    ∀ (es rest : List (PanEvent α)) (q : Point α), (∀ e ∈ rest, e.isMove = false) →
      let now := pressed.panThrough es
      let offset := ix.view.pan + (es.foldl PanEvent.adjust ix.lock).constrain (q - place)
      (now.move (now.view.toWorld q)).1 = .panned offset ∧
      (pressed.panThrough (es ++ .moveTo q :: rest)).view.pan = offset ∧
      ∀ es' : List (PanEvent α), es'.filter (!·.isMove) = es.filter (!·.isMove) →
        (pressed.panThrough (es' ++ .moveTo q :: rest)).view.pan = offset := by
  intro ix pressed
  have hreachable : ix.view.Reachable := reachable_view_run hview hviews
  have hdragging : ix.isDragging = false := (coherent_run view before).isDragging_of_pan hmode
  have hpans : pressed.Pans place ix.view.pan := .of_press hreachable hdragging hmode place hit
  have hlock : pressed.lock = ix.lock := congrArg Terms.lock (terms_press ix _ hit)
  refine ⟨fun v hv p => ⟨hv.toWorld_toView p, hv.toView_toWorld p⟩,
    fun es => (hpans.panThrough es).view, fun es rest q hrest => ?_⟩
  intro now offset
  refine ⟨?_, ?_, fun es' hsame => ?_⟩
  · rw [(hpans.panThrough es).move, lock_panThrough, hlock]
  · rw [hpans.pan_panThrough es q hrest, hlock]
  · rw [hpans.pan_panThrough es' q hrest, hlock, ← PanEvent.foldl_adjust_filter es', hsame,
      PanEvent.foldl_adjust_filter]

theorem pan_follows_pointer_locked :
    let moved : View ℝ := (View.ofSize ⟨500, 400⟩).setPan ⟨3, -4⟩
    let before : List (Event ℝ UInt32) := [.setMode .pan, .setView moved]
    let ix := (ofView (.ofSize ⟨800, 600⟩)).run before
    let pressed := (ix.press (ix.view.toWorld ⟨400, 300⟩) none).2
    let es : List (PanEvent ℝ) := [.moveTo ⟨0, 0⟩, .setLock ⟨true, false⟩, .resize ⟨200, 100⟩]
    let rest : List (PanEvent ℝ) := [.setLock .free, .resize ⟨640, 480⟩]
    moved.Reachable ∧ ix.mode = .pan ∧ (∀ e ∈ rest, e.isMove = false) ∧
      (pressed.panThrough (es ++ .moveTo ⟨410, 320⟩ :: rest)).view.pan = ⟨3, 16⟩ := by
  intro moved before ix pressed es rest
  have hmoved : moved.Reachable := .setPan (.ofSize _) _
  have hviews : ∀ view, .setView view ∈ before → view.Reachable := by
    intro view hmem
    simp only [before, List.mem_cons, reduceCtorEq, Event.setView.injEq, List.not_mem_nil,
      or_false, false_or] at hmem
    rw [hmem]
    exact hmoved
  have hrest : ∀ e ∈ rest, e.isMove = false := by
    simp [rest, PanEvent.isMove]
  obtain ⟨-, -, hoffset⟩ :=
    pan_follows_pointer (.ofSize ⟨800, 600⟩) before (.ofSize _) hviews rfl ⟨400, 300⟩ none
  obtain ⟨-, hpan, -⟩ := hoffset es rest ⟨410, 320⟩ hrest
  have hbase : ix.view.pan = ⟨3, -4⟩ := View.pan_setPan _ _
  have hlock : es.foldl PanEvent.adjust ix.lock = ⟨true, false⟩ := rfl
  refine ⟨hmoved, rfl, hrest, hpan.trans ?_⟩
  rw [hbase, hlock]
  ext
  · simp [AxisLock.constrain]
  · norm_num [AxisLock.constrain]

end Interaction

end VectorEditor
