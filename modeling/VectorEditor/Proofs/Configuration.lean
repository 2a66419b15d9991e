import VectorEditor.Proofs.Drags
import VectorEditor.Proofs.Pointer

/-!
# Settings and the running configuration

The frame, the grid, snapping, the size of the view and the limit of the history are kept twice:
where they are at work, and in the settings, from which the next session takes them. Nothing but
the requests themselves keeps the two in step. `Settings.adopt` says what a request makes of the
settings, `Interaction.configuration_handle` what an event makes of the interaction, and
`Editor.settings_rebuild_configuration` that an editor built from the settings of another one is
configured as that one is.
-/

namespace VectorEditor

variable {α T K R R' : Type}

/-- What settings determine of a running editor. -/
structure Configuration (α : Type) where
  frame : Frame
  grid : Grid α
  snapping : Bool
  viewSize : Size α
  historyLimit : Option Nat

namespace Settings

/-- The configuration that the settings stand for. -/
def configuration (s : Settings α) : Configuration α :=
  ⟨s.frame, s.grid, s.snapping, s.viewSize, s.historyLimit⟩

/-- What a request makes of the settings: a toggle is written back, and so is the size of the view
unless it is equal to the present one. -/
def adopt [Scalar α] (s : Settings α) : Editor.Request α T → Settings α
  | .setFrame frame => { s with useWorldFrame := frame = .world }
  | .setSnapping snapping => { s with snapping }
  | .setViewSize size => if s.viewSize == size then s else { s with viewSize := size }
  | _ => s

end Settings

/-! ## Events and the configuration -/

theorem View.size_setPan [Scalar α] (v : View α) (pan : Vec α) : (v.setPan pan).size = v.size := by
  unfold setPan
  split <;> rfl

namespace Interaction

/-- The configuration of the interaction beside a history of the given limit. -/
def configuration (limit : Option Nat) (ix : Interaction α K) : Configuration α :=
  ⟨ix.frame, ix.grid, ix.snapping, ix.view.size, limit⟩

/-- What an event makes of the configuration. -/
def Event.configure [Scalar α] (c : Configuration α) : Event α K → Configuration α
  | .setFrame frame => { c with frame }
  | .setGrid grid => { c with grid }
  | .setSnapping snapping => { c with snapping }
  | .setViewSize size => if c.viewSize == size then c else { c with viewSize := size }
  | .setView view => { c with viewSize := view.size }
  | _ => c

theorem configuration_congr {limit : Option Nat} {ix ix' : Interaction α K}
    (hterms : ix'.terms = ix.terms) (hsize : ix'.view.size = ix.view.size) :
    ix'.configuration limit = ix.configuration limit := by
  simp only [terms, Terms.mk.injEq] at hterms
  obtain ⟨-, hframe, hgrid, hsnapping⟩ := hterms
  simp only [configuration, hframe, hgrid, hsnapping, hsize]

variable [Scalar α]

theorem view_release (ix : Interaction α K) (p : Point α) : (ix.release p).2.view = ix.view := by
  unfold release
  split
  · rfl
  · rfl
  · split <;> rfl

theorem size_move (ix : Interaction α K) (p : Point α) :
    (ix.move p).2.view.size = ix.view.size := by
  unfold move
  split
  · rfl
  · exact View.size_setPan _ _
  · split <;> rfl

variable [DecidableEq K]

theorem view_press (ix : Interaction α K) (p : Point α) (hit : Option (Hit α K)) :
    (ix.press p hit).2.view = ix.view := by
  rcases ix.press_cases p hit with hpress | ⟨-, hpress | hpress | ⟨_, _, -, -, hpress⟩⟩
  · rw [hpress]
  · rw [hpress, startPan]
  · rw [hpress, cancel]
  · rcases hpress with hpress | ⟨kind, hpress⟩ <;> rw [hpress]

theorem configuration_handle (limit : Option Nat) (ix : Interaction α K) (event : Event α K) :
    (ix.handle event).2.configuration limit = event.configure (ix.configuration limit) := by
  cases event with
  | press p hit =>
    exact configuration_congr (terms_press ix p hit) (by rw [handle, view_press])
  | move p => exact configuration_congr (terms_move ix p) (size_move ix p)
  | release p => exact configuration_congr (terms_release ix p) (by rw [handle, view_release])
  | setFrame frame => cases frame <;> rfl
  | setViewSize size =>
    by_cases hsame : (ix.view.size == size) = true
    · simp [handle, setViewSize, View.setSize, configuration, Event.configure, hsame]
    · simp [handle, setViewSize, View.setSize, View.build, configuration, Event.configure, hsame]
  | setViewPan pan => exact configuration_congr rfl (View.size_setPan _ _)
  | panViewBy delta => exact configuration_congr rfl (View.size_setPan _ _)
  | _ => rfl

end Interaction

namespace Editor

/-- The configuration that is at work in the editor. -/
def configuration (e : Editor α T) : Configuration α :=
  e.interaction.configuration e.history.limit

variable [Scalar α]

theorem configuration_ofSettings (settings : Settings α) :
    (ofSettings settings : Editor α T).configuration = settings.configuration := by
  unfold ofSettings
  cases hframe : settings.frame <;>
    simp only [configuration, Settings.configuration, Interaction.configuration, hframe] <;> rfl

/-! ## Requests and the settings -/

theorem settings_deselectKey (e : Editor α T) (k : Key) :
    (e.deselectKey k).editor.settings = e.settings := by
  unfold deselectKey
  split <;> rfl

variable [Region α T]

theorem settings_commit (e : Editor α T) (ch : Change α T) (withBefore : Bool) :
    (e.commit ch withBefore).editor.settings = e.settings := by
  rcases e.commit_cases ch withBefore with ⟨err, -, hreply⟩ | ⟨s, ch', s', -, -, hreply⟩
  · rw [hreply]
  · rw [hreply]

theorem settings_commitTransform (e : Editor α T) (k : Key) (t : Affine α) (frame : Frame) :
    (e.commitTransform k t frame).editor.settings = e.settings := by
  unfold commitTransform
  split
  · rfl
  · split
    · rfl
    · exact settings_commit e _ true

theorem settings_applyEntry (e : Editor α T) (entry : Entry α) :
    (e.applyEntry entry).editor.settings = e.settings := by
  unfold applyEntry
  split
  · rfl
  · simp only [Reply.bind]
    split
    · rfl
    · exact settings_commitTransform _ _ _ _

theorem settings_restack (e : Editor α T) (s : End) (k : Key) :
    (e.restack s k).editor.settings = e.settings := by
  rcases e.restack_cases s k with ⟨answer, hreply⟩ | ⟨old, new, hreply⟩
  · rw [hreply]
  · rw [hreply]
    exact settings_commit e _ _

theorem settings_release (e : Editor α T) (p : Point α) :
    (e.release p).editor.settings = e.settings := by
  simp only [release, Reply.bind, track]
  split
  · rfl
  · have hcommit := settings_commitTransform { e with interaction := (e.interaction.release p).2 }
    split <;> exact hcommit _ _ _

theorem StepsHistory.settings {e : Editor α T} {q : Reply α T (Except (Error α) Bool)}
    (h : e.StepsHistory q) : q.editor.settings = e.settings := by
  rcases h with ⟨answer, log, rfl⟩ | ⟨k, s, history, log, rfl⟩ <;> rfl

/-- A size of the view is compared with that of the view itself, so the two have to agree before. -/
theorem settings_perform {e : Editor α T} (h : e.settings.configuration = e.configuration)
    (r : Request α T) : (e.perform r).editor.settings = e.settings.adopt r := by
  cases r with
  | delete k => exact (settings_commit _ _ _).trans (settings_deselectKey e k)
  | edit k item => exact (settings_commit _ _ _).trans (settings_deselectKey e k)
  | replaceItem k item =>
    simp only [perform, replaceItem, Reply.map]
    split <;> rfl
  | raise k => exact settings_restack e .top k
  | lower k => exact settings_restack e .bottom k
  | applyEntry entry => exact settings_applyEntry e entry
  | release p => exact settings_release e p
  | undo => exact (travel_stepsHistory e .back).settings
  | redo => exact (travel_stepsHistory e .forth).settings
  | setViewSize size =>
    have hsize : e.settings.viewSize = e.interaction.view.size := congrArg Configuration.viewSize h
    simp only [perform, setViewSize, Settings.adopt, Reply.map, hsize]
    split <;> rfl
  | _ => rfl

theorem configuration_perform {e : Editor α T} (h : e.settings.configuration = e.configuration)
    (r : Request α T) :
    (e.perform r).editor.configuration = (e.settings.adopt r).configuration := by
  have hevent : (e.perform r).editor.configuration =
      (e.event? r).toList.foldl Interaction.Event.configure e.configuration := by
    rw [configuration, (perform_leads e r).interaction, (performed e r).limit_eq]
    cases e.event? r with
    | none => rfl
    | some event => exact Interaction.configuration_handle _ _ _
  rw [hevent, ← h]
  cases r with
  | delete | edit | applyEntry =>
    simp only [event?]
    split <;> rfl
  | setFrame frame => cases frame <;> rfl
  | setViewSize size =>
    show (if e.settings.viewSize == size then _ else _) = _
    simp only [Settings.adopt]
    split <;> rfl
  | _ => rfl

/-! ## Sessions -/

theorem run_adopts (rs : List (Request α T)) {e : Editor α T}
    (h : e.settings.configuration = e.configuration) :
    (e.run rs).settings = rs.foldl Settings.adopt e.settings ∧
      (e.run rs).settings.configuration = (e.run rs).configuration := by
  induction rs generalizing e with
  | nil => exact ⟨rfl, h⟩
  | cons r rs ih =>
    have hsettings := settings_perform h r
    have hnext := ih (e := (e.perform r).editor) (by rw [configuration_perform h, hsettings])
    rw [hsettings] at hnext
    exact hnext

/-- **An editor built from the settings of another is configured as that one.** -/
theorem settings_rebuild_configuration (settings : Settings α) (rs : List (Request α T)) :
    let e : Editor α T := (ofSettings settings).run rs
    e.settings = rs.foldl Settings.adopt settings ∧
      e.settings.configuration = e.configuration ∧
      (ofSettings e.settings : Editor α T).configuration = e.configuration := by
  intro e
  obtain ⟨hsettings, hconfiguration⟩ :=
    run_adopts rs (e := ofSettings settings) (configuration_ofSettings settings).symm
  exact ⟨hsettings, hconfiguration, (configuration_ofSettings e.settings).trans hconfiguration⟩

end Editor

end VectorEditor
