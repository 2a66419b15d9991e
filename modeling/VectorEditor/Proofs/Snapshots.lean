import Mathlib.Logic.Function.Basic
import VectorEditor.Proofs.Requests

/-!
# The timeline of a drawing

To a user a drawing is the objects under their keys, and its history a timeline of such snapshots:
an unrecorded object is added to every snapshot, a recorded change gives a new one, and undo and
redo go back and forth. `Editor.follow` is that timeline in the course of a session. The editor
itself holds no snapshots but records that change and take each other's place, and
`Editor.run_follows_timeline` says that the two cannot be told apart.
-/

namespace VectorEditor

variable {α T : Type}

/-- The objects of a drawing under their keys. -/
abbrev Snapshot (α T : Type) := Key → Option (Drawable α T)

/-- The snapshot with an object placed under a key. -/
def Snapshot.place (k : Key) (d : Drawable α T) (s : Snapshot α T) : Snapshot α T :=
  Function.update s k (some d)

/-- What becomes of an object by a change that has not been made yet. -/
def Change.outcome [Scalar α] (ch : Change α T) (object : Option (Drawable α T)) :
    Option (Drawable α T) :=
  match ch with
  | .transformation t =>
    object.map fun d => { d with transform := t.frame.compose d.transform t.transform }
  | .creation _ held => held
  | .deletion _ _ => none
  | .reorder _ _ new => object.map fun d => { d with order := new }
  | .edit _ item => object.map fun d => { d with item }

/-- What becomes of a drawing by a change that has not been made yet. -/
def Change.effect [Scalar α] (ch : Change α T) (s : Snapshot α T) : Snapshot α T :=
  Function.update s ch.key (ch.outcome (s ch.key))

namespace Canvas

variable {c : Canvas α T}

theorem get?_put {k : Key} {s : Option (Drawable α T)} (h : c.slot? k = some s)
    (s' : Option (Drawable α T)) : (c.put k s').get? = Function.update c.get? k s' := by
  funext l
  by_cases hl : l = k
  · subst hl
    rw [get?_put_self h, Function.update_self]
  · rw [get?_put_ne hl, Function.update_of_ne hl]

theorem get?_extend (h : c.slots.size < UInt32.size) (s : Option (Drawable α T)) :
    (c.extend s).get? = Function.update c.get? c.nextKey s := by
  funext l
  by_cases hl : l = c.nextKey
  · subst hl
    rw [get?_of_slot? (slot?_extend_nextKey h s), Function.update_self]
  · rw [Function.update_of_ne hl, get?_extend_ne hl]

theorem get?_extend_none (h : c.slots.size < UInt32.size) : (c.extend none).get? = c.get? := by
  have hnone : c.get? c.nextKey = none := by rw [get?_eq_join, slot?_nextKey h, Option.join_none]
  rw [get?_extend h, ← hnone, Function.update_eq_self]

end Canvas

theorem Change.New.get?_of_apply [Scalar α] [Region α T] {ch ch' : Change α T} {c c' : Canvas α T}
    (hnew : ch.New c) (h : ch.apply c = ⟨ch', c', none⟩) : c'.get? = ch.effect c.get? := by
  obtain ⟨s, s', hslot, happlies, rfl⟩ := Change.apply_eq_ok h
  rw [Canvas.get?_put hslot, Change.effect, Canvas.get?_of_slot? hslot]
  cases happlies with
  | transform _ => rfl
  | transformAgain hcommitted =>
    have hnone := hnew.2
    rw [hcommitted] at hnone
    cases hnone
  | create => exact hnew.elim
  | delete => rfl
  | reorder => rfl
  | edit => rfl

namespace Editor

variable [Scalar α] [Region α T]

/-- The timeline after an attempt at a change: its effect is the new present if it was made. -/
def attempted (limit : Option Nat) (ask : Option (Change α T)) (made : Bool)
    (z : Timeline (Snapshot α T)) : Timeline (Snapshot α T) :=
  match ask with
  | some ch => if made then z.record limit (ch.effect z.present) else z
  | none => z

/-- The timeline after a request. An unrecorded object appears in every snapshot, and what leaves
no record otherwise leaves the timeline alone. -/
def advance (limit : Option Nat) (e : Editor α T) (r : Request α T)
    (z : Timeline (Snapshot α T)) : Timeline (Snapshot α T) :=
  match r with
  | .load d => z.map (Snapshot.place (e.load d).answer d)
  | .add d => z.record limit (z.present.place (e.add d).answer d)
  | .undo => z.back
  | .redo => z.forward
  | r => attempted limit (e.asked r) (e.perform r).answer.reports z

omit [Region α T] in
theorem attempted_false (limit : Option Nat) (ask : Option (Change α T))
    (z : Timeline (Snapshot α T)) : attempted limit ask false z = z := by
  cases ask <;> rfl

/-- The timeline after a session. -/
def follow (limit : Option Nat) (e : Editor α T) (z : Timeline (Snapshot α T)) :
    List (Request α T) → Timeline (Snapshot α T)
  | [] => z
  | r :: rs => follow limit (e.perform r).editor (e.advance limit r z) rs

/-- The history leads through canvases that show the timeline. -/
structure Shows (limit : Option Nat) (e : Editor α T) (z : Timeline (Snapshot α T)) : Prop where
  limit_eq : e.history.limit = limit
  tracks : ∃ zc : Timeline (Canvas α T), e.history.Tracks e.canvas zc ∧ z = zc.map Canvas.get?

namespace Shows

variable {limit : Option Nat} {e : Editor α T} {z : Timeline (Snapshot α T)}

theorem present_eq (h : Shows limit e z) : z.present = e.canvas.get? := by
  obtain ⟨-, zc, htracks, rfl⟩ := h
  rw [Timeline.map, htracks.present]

theorem length_past (h : Shows limit e z) : z.past.length = e.history.done.length := by
  obtain ⟨-, zc, htracks, rfl⟩ := h
  rw [Timeline.map, List.length_map, htracks.past.length_eq]

theorem length_future (h : Shows limit e z) : z.future.length = e.history.undone.length := by
  obtain ⟨-, zc, htracks, rfl⟩ := h
  rw [Timeline.map, List.length_map, htracks.future.length_eq]

theorem undo_answer (h : Shows limit e z) : e.undo.answer = .ok (!z.past.isEmpty) := by
  obtain ⟨-, zc, htracks, rfl⟩ := h
  rw [(undo_eq e).1, htracks.undo.1, Timeline.map, List.isEmpty_map]
  rfl

theorem redo_answer (h : Shows limit e z) : e.redo.answer = .ok (!z.future.isEmpty) := by
  obtain ⟨-, zc, htracks, rfl⟩ := h
  rw [(redo_eq e).1, htracks.redo.1, Timeline.map, List.isEmpty_map]
  rfl

/-! ## One request -/

theorem undo (h : Shows limit e z) : Shows limit (e.perform .undo).editor z.back := by
  refine ⟨(performed e .undo).limit_eq.trans h.limit_eq, ?_⟩
  obtain ⟨-, zc, htracks, rfl⟩ := h
  obtain ⟨-, hhistory, hcanvas⟩ := undo_eq e
  refine ⟨zc.back, ?_, (Timeline.map_back _ zc).symm⟩
  show History.Tracks e.undo.editor.history e.undo.editor.canvas zc.back
  rw [hhistory, hcanvas]
  exact htracks.undo.2

theorem redo (h : Shows limit e z) : Shows limit (e.perform .redo).editor z.forward := by
  refine ⟨(performed e .redo).limit_eq.trans h.limit_eq, ?_⟩
  obtain ⟨-, zc, htracks, rfl⟩ := h
  obtain ⟨-, hhistory, hcanvas⟩ := redo_eq e
  refine ⟨zc.forward, ?_, (Timeline.map_forward _ zc).symm⟩
  show History.Tracks e.redo.editor.history e.redo.editor.canvas zc.forward
  rw [hhistory, hcanvas]
  exact htracks.redo.2

theorem size_eq_of_mem_states {zc : Timeline (Canvas α T)} (h : e.history.Tracks e.canvas zc) :
    ∀ c ∈ zc.states, c.slots.size = e.canvas.slots.size :=
  h.forall_eq fun hexchange => hexchange.size_eq

theorem load (h : Shows limit e z) (hroom : e.canvas.slots.size < UInt32.size)
    (d : Drawable α T) :
    Shows limit (e.perform (.load d)).editor (e.advance limit (.load d) z) := by
  obtain ⟨hlimit, zc, htracks, rfl⟩ := h
  have hsize := size_eq_of_mem_states htracks
  have hcanvas : (e.perform (.load d)).editor.canvas = e.canvas.extend (some d) := canvas_load e d
  refine ⟨hlimit, zc.map (·.extend (some d)), ?_, ?_⟩
  · rw [hcanvas]
    exact htracks.map fun hexchange => hexchange.extend (some d)
  · rw [advance, Timeline.map_map, Timeline.map_map]
    refine Timeline.map_congr fun c hc => ?_
    have hkey : c.nextKey = e.canvas.nextKey := by rw [Canvas.nextKey, hsize c hc, Canvas.nextKey]
    show Function.update c.get? e.canvas.nextKey (some d) = (c.extend (some d)).get?
    rw [Canvas.get?_extend (hsize c hc ▸ hroom), hkey]

theorem add (h : Shows limit e z) (hroom : e.canvas.slots.size < UInt32.size)
    (d : Drawable α T) :
    Shows limit (e.perform (.add d)).editor (e.advance limit (.add d) z) := by
  have hpresent := h.present_eq
  obtain ⟨hlimit, zc, htracks, rfl⟩ := h
  have hsize := size_eq_of_mem_states htracks
  -- before its creation the object has a slot too, which is vacant and does not show
  have hvacant := htracks.map fun hexchange => hexchange.extend none
  have hshown : (zc.map (·.extend none)).map Canvas.get? = zc.map Canvas.get? := by
    rw [Timeline.map_map]
    exact Timeline.map_congr fun c hc => Canvas.get?_extend_none (hsize c hc ▸ hroom)
  have hcanvas : (e.perform (.add d)).editor.canvas = e.canvas.extend (some d) := canvas_add e d
  refine ⟨hlimit, (zc.map (·.extend none)).record e.history.limit (e.canvas.extend (some d)),
    ?_, ?_⟩
  · rw [hcanvas]
    exact hvacant.push (Exchange.creation hroom d)
  · rw [Timeline.map_record, hshown, Canvas.get?_extend hroom, advance, hpresent, hlimit]
    rfl

theorem edit (h : Shows limit e z) {r : Request α T} (hplaces : r.places = false)
    (hbypasses : r.bypasses = false) (hundo : r ≠ .undo) (hredo : r ≠ .redo) :
    Shows limit (e.perform r).editor (e.advance limit r z) := by
  have hadvance : e.advance limit r z =
      attempted limit (e.asked r) (e.perform r).answer.reports z := by
    cases r with
    | load | add => cases hplaces
    | undo => exact absurd rfl hundo
    | redo => exact absurd rfl hredo
    | _ => rfl
  have hperformed := performed e r
  refine ⟨hperformed.limit_eq.trans h.limit_eq, ?_⟩
  rw [hadvance]
  clear hadvance
  generalize e.perform r = q at hperformed ⊢
  cases hperformed with
  | kept hkeeps _ hanswer =>
    have hsame : attempted limit (e.asked r) q.answer.reports z = z := by
      cases hrevises : r.revises with
      | false => rw [asked_of_not_revises hrevises, attempted]
      | true => rw [hanswer hrevises, attempted_false]
    rw [hsame, hkeeps.canvas, hkeeps.history]
    exact h.tracks
  | made _ hask happly hhistory hanswer =>
    have hpresent := h.present_eq
    obtain ⟨hlimit, zc, htracks, rfl⟩ := h
    have hnew := asked_new hask
    obtain ⟨ch'', hexchange⟩ :=
      Change.exchange_of_apply happly fun s hslot => hnew.fits hslot
    rw [hhistory]
    refine ⟨_, htracks.push hexchange, ?_⟩
    rw [hask, hanswer, attempted, if_pos rfl, Timeline.map_record, hlimit, hpresent,
      hnew.get?_of_apply happly]
  | undone => exact absurd rfl hundo
  | redone => exact absurd rfl hredo
  | loaded => cases hplaces
  | added => cases hplaces
  | replaced => cases hbypasses

/-- **Every request moves the timeline on as it should**, as long as there are keys left. -/
theorem perform (h : Shows limit e z) {r : Request α T} (hbypasses : r.bypasses = false)
    (hroom : r.places = true → e.canvas.slots.size < UInt32.size) :
    Shows limit (e.perform r).editor (e.advance limit r z) := by
  cases r with
  | load d => exact h.load (hroom rfl) d
  | add d => exact h.add (hroom rfl) d
  | undo => exact h.undo
  | redo => exact h.redo
  | replaceItem => cases hbypasses
  | _ => exact h.edit rfl rfl nofun nofun

end Shows

/-! ## Sessions -/

theorem shows_ofSettings (settings : Settings α) :
    Shows settings.historyLimit (ofSettings settings : Editor α T) (.start fun _ => none) :=
  ⟨rfl, .start .empty, .empty _ _, rfl⟩

theorem run_shows {limit : Option Nat} (rs : List (Request α T)) {e : Editor α T}
    {z : Timeline (Snapshot α T)} (h : Shows limit e z) (hrecorded : ∀ r ∈ rs, r.bypasses = false)
    (hroom : e.canvas.slots.size + rs.countP Request.places ≤ UInt32.size) :
    Shows limit (e.run rs) (e.follow limit z rs) := by
  induction rs generalizing e z with
  | nil => exact h
  | cons r rs ih =>
    obtain ⟨hr, hrs⟩ := List.forall_mem_cons.mp hrecorded
    obtain ⟨hkey, hrest⟩ := room_of_cons hroom
    exact ih (h.perform hr hkey) hrs hrest

/-- **A session goes through the timeline of its snapshots** (`Editor.follow`). -/
theorem run_follows_timeline (settings : Settings α) (rs : List (Request α T))
    (hrecorded : ∀ r ∈ rs, r.bypasses = false)
    (hplaced : rs.countP Request.places < UInt32.size) :
    let e := (ofSettings settings).run rs
    let z := (ofSettings settings).follow settings.historyLimit (.start fun _ => none) rs
    e.canvas.get? = z.present ∧
      e.history.done.length = z.past.length ∧ e.history.undone.length = z.future.length ∧
      e.undo.answer = .ok (!z.past.isEmpty) ∧ e.undo.editor.canvas.get? = z.back.present ∧
      e.redo.answer = .ok (!z.future.isEmpty) ∧ e.redo.editor.canvas.get? = z.forward.present := by
  intro e z
  have hshows : Shows settings.historyLimit e z := by
    refine run_shows rs (shows_ofSettings settings) hrecorded ?_
    have hempty : (ofSettings settings : Editor α T).canvas.slots.size = 0 := rfl
    omega
  exact ⟨hshows.present_eq.symm, hshows.length_past.symm, hshows.length_future.symm,
    hshows.undo_answer, hshows.undo.present_eq.symm, hshows.redo_answer,
    hshows.redo.present_eq.symm⟩

theorem run_follows_timeline_undone :
    let d : Drawable Float (Shape Float) := ⟨.rect ⟨0, 0, 1, 1⟩, .identity, 0, default⟩
    let rs : List (Request Float (Shape Float)) := [.add d, .load d, .delete ⟨0⟩, .undo]
    let e := (ofSettings default).run rs
    let z := (ofSettings (default : Settings Float)).follow none (.start fun _ => none) rs
    (∀ r ∈ rs, r.bypasses = false) ∧ rs.countP Request.places < UInt32.size ∧
      e.canvas.get? = z.present ∧ z.past.length = 1 ∧ z.future.length = 1 ∧
      e.undo.answer = .ok true ∧ e.undo.editor.canvas.get? ⟨1⟩ = some d ∧
      e.redo.answer = .ok true ∧ e.redo.editor.canvas.get? ⟨0⟩ = none := by
  intro d rs e z
  have hrecorded : ∀ r ∈ rs, r.bypasses = false := by simp [rs, Request.bypasses]
  have hplaced : rs.countP Request.places < UInt32.size := by
    have hcount : rs.countP Request.places = 2 := rfl
    rw [hcount, UInt32.size]
    omega
  obtain ⟨hpresent, -, -, hundo, hback, hredo, hforward⟩ :=
    run_follows_timeline default rs hrecorded hplaced
  refine ⟨hrecorded, hplaced, hpresent, rfl, rfl, hundo, ?_, hredo, ?_⟩
  · rw [hback]
    rfl
  · rw [hforward]
    rfl

end Editor

end VectorEditor
