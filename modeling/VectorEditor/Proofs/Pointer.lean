import VectorEditor.Proofs.Phases
import VectorEditor.Proofs.Requests

/-!
# The pointer in the course of a session

To the interaction a request is at most one event (`Editor.event?`), so what is known of events
holds in every session. Of the interaction and the canvas together this says that the selected
object is there (`Editor.Attends`): a press selects what it hits, and whoever takes an object off
the canvas gives up its selection first.
-/

namespace VectorEditor

variable {α T K R R' : Type}

/-! ## What events do to the selection -/

theorem Mode.eq_select {mode : Mode} (hpan : mode ≠ .pan) (hkind : mode.dragKind? = none) :
    mode = .select := by
  cases mode with
  | pan => exact absurd rfl hpan
  | select => rfl
  | drag kind => cases hkind

namespace Interaction

variable [Scalar α]

theorem selection_move (ix : Interaction α K) (p : Point α) :
    (ix.move p).2.selection = ix.selection := by
  rw [move]
  split
  · rfl
  · rfl
  · split <;> rfl

@[simp] theorem selected_cancel (ix : Interaction α K) : ix.cancel.selected = none :=
  Selection.key_clear _

theorem selected_release (ix : Interaction α K) (p : Point α) :
    (ix.release p).2.selected = none ∨ (ix.release p).2.selected = ix.selected := by
  rw [release]
  split
  · exact .inr rfl
  · exact .inr rfl
  · refine .inl ?_
    split <;> exact selected_cancel ix

theorem key_release {ix : Interaction α K} {p : Point α} {commit : Commit α K}
    (h : (ix.release p).1 = some commit) : ix.selected = some commit.key := by
  rw [release] at h
  split at h
  · cases h
  · cases h
  · split at h
    · rename_i hkey
      cases h
      exact hkey
    · cases h

omit [Scalar α] in
theorem selected_of_tentative {ix : Interaction α K} {key : K} {t : Affine α}
    (h : ix.tentative = some (key, t)) : ix.selected = some key := by
  rw [tentative] at h
  split at h
  · obtain ⟨key', hkey, heq⟩ := Option.map_eq_some_iff.mp h
    cases heq
    exact hkey
  · cases h

variable [DecidableEq K]

/-- A press is ignored, begins to pan, gives up everything, or selects the object hit. -/
theorem press_cases (ix : Interaction α K) (p : Point α) (hit : Option (Hit α K)) :
    ix.press p hit = (.ignored, ix) ∨
    ix.isDragging = false ∧
      (ix.press p hit = (.panStarted, ix.startPan p) ∨
      ix.press p hit = (.cleared, ix.cancel) ∨
      ∃ h selection, hit = some h ∧
        selection = (ix.selection.select h.key (ix.anchorMode.resolve h.bounds)).2 ∧
        (ix.press p hit = (.selected h.key, { ix with selection, phase := .idle }) ∨
        ∃ kind, ix.press p hit = (.dragStarted h.key,
          { ix with selection, phase := .dragging kind .identity, track := .start p }))) := by
  cases hdragging : ix.isDragging with
  | true => exact .inl (press_of_dragging hdragging p hit)
  | false =>
    refine .inr ⟨rfl, ?_⟩
    by_cases hpan : ix.mode = .pan
    · exact .inl (press_of_pan hdragging hpan p hit)
    · cases hit with
      | none => exact .inr (.inl (press_of_none hdragging hpan p))
      | some hit =>
        refine .inr (.inr ⟨hit, _, rfl, rfl, ?_⟩)
        cases hkind : ix.mode.dragKind? with
        | none => exact .inl (press_of_select hdragging (Mode.eq_select hpan hkind) p hit)
        | some kind => exact .inr ⟨kind, press_of_dragKind hdragging hkind p hit⟩

theorem selected_press {ix : Interaction α K} {p : Point α} {hit : Option (Hit α K)} {key : K}
    (h : (ix.press p hit).2.selected = some key) :
    ix.selected = some key ∨ hit.map (·.key) = some key := by
  rcases ix.press_cases p hit with hpress | ⟨-, hpress | hpress | ⟨_, _, rfl, rfl, hpress⟩⟩
  · rw [hpress] at h
    exact .inl h
  · rw [hpress] at h
    exact .inl h
  · rw [hpress, selected_cancel] at h
    cases h
  · refine .inr ?_
    rcases hpress with hpress | ⟨kind, hpress⟩
    all_goals
      rw [hpress, selected, Selection.key_select] at h
      exact h

theorem selected_handle {ix : Interaction α K} {event : Event α K} {key : K}
    (h : (ix.handle event).2.selected = some key) :
    (ix.selected = some key ∧ event ≠ .cancel) ∨
      ∃ p hit, event = .press p (some hit) ∧ hit.key = key := by
  cases event with
  | press p hit =>
    rcases selected_press h with hsame | hhit
    · exact .inl ⟨hsame, by simp⟩
    · obtain ⟨hit, rfl, hkey⟩ := Option.map_eq_some_iff.mp hhit
      exact .inr ⟨p, hit, rfl, hkey⟩
  | move p =>
    rw [handle, selected, selection_move] at h
    exact .inl ⟨h, by simp⟩
  | release p =>
    rw [handle] at h
    rcases ix.selected_release p with hnone | hsame
    · rw [hnone] at h
      cases h
    · rw [hsame] at h
      exact .inl ⟨h, by simp⟩
  | cancel =>
    rw [handle, selected_cancel] at h
    cases h
  | setMode mode =>
    have hnone : (ix.setMode mode).selected = none := selected_cancel ix
    rw [handle, hnone] at h
    cases h
  | setFrame frame => cases frame <;> exact .inl ⟨h, by simp⟩
  | _ => exact .inl ⟨h, by simp⟩

end Interaction

namespace Editor

/-! ## Requests as events -/

/-- The reply leaves the interaction in the state `ix`, and the choice of live previews alone. -/
structure Reply.Leads (e : Editor α T) (ix : Interaction α Key) (q : Reply α T R) : Prop where
  interaction : q.editor.interaction = ix
  livePreview : q.editor.settings.livePreview = e.settings.livePreview

theorem Reply.Leads.refl (e : Editor α T) (answer : R) (log : List (Notice α)) :
    Reply.Leads e e.interaction { answer, editor := e, log } :=
  ⟨rfl, rfl⟩

theorem Reply.Leads.map {e : Editor α T} {ix : Interaction α Key} {q : Reply α T R}
    (h : q.Leads e ix) (f : R → R') : (q.map f).Leads e ix :=
  ⟨h.interaction, h.livePreview⟩

theorem Reply.Leads.bind {e : Editor α T} {ix ix' : Interaction α Key} {q : Reply α T R}
    (h : q.Leads e ix) {next : R → Editor α T → Reply α T R'}
    (hnext : (next q.answer q.editor).Leads q.editor ix') : (q.bind next).Leads e ix' :=
  ⟨hnext.interaction, hnext.livePreview.trans h.livePreview⟩

variable [Scalar α]

omit [Scalar α] in
theorem track_leads (e : Editor α T) (answer : R) (ix : Interaction α Key) :
    (e.track answer ix).Leads e ix :=
  ⟨rfl, rfl⟩

variable [Region α T]

/-- What a request is to the interaction. -/
def event? (e : Editor α T) : Request α T → Option (Interaction.Event α Key)
  | .press p => some (.press p (if e.interaction.mode = .pan then none else e.hitAt p))
  | .move p => some (.move p)
  | .release p => some (.release p)
  | .undo | .redo | .deselect => some .cancel
  | .delete k | .edit k _ => if e.interaction.selected = some k then some .cancel else none
  | .applyEntry _ => if e.interaction.selected.isSome then some .cancel else none
  | .setMode mode => some (.setMode mode)
  | .setLock lock => some (.setLock lock)
  | .setAnchorMode anchorMode => some (.setAnchorMode anchorMode)
  | .setFrame frame => some (.setFrame frame)
  | .setSnapping snapping => some (.setSnapping snapping)
  | .setViewSize size => some (.setViewSize size)
  | .load _ | .add _ | .replaceItem _ _ | .raise _ | .lower _ => none

theorem commit_leads (e : Editor α T) (ch : Change α T) (withBefore : Bool) :
    (e.commit ch withBefore).Leads e e.interaction := by
  rcases e.commit_cases ch withBefore with ⟨err, -, hreply⟩ | ⟨s, ch', s', -, -, hreply⟩
  · rw [hreply]
    exact ⟨rfl, rfl⟩
  · rw [hreply]
    exact ⟨rfl, rfl⟩

theorem commitTransform_leads (e : Editor α T) (k : Key) (t : Affine α) (frame : Frame) :
    (e.commitTransform k t frame).Leads e e.interaction := by
  rw [commitTransform]
  split
  · exact ⟨rfl, rfl⟩
  · split
    · exact ⟨rfl, rfl⟩
    · exact (commit_leads e _ true).map _

theorem commitKey_leads (e : Editor α T) (k : Key) (ch : Change α T) :
    ((e.deselectKey k).bind fun _ e => e.commit ch true).Leads e (e.interaction.run
      (if e.interaction.selected = some k then some .cancel else none).toList) := by
  rw [deselectKey]
  split
  · exact (track_leads _ _ _).bind (commit_leads _ _ _)
  · exact (Reply.Leads.refl e () []).bind (commit_leads _ _ _)

theorem restack_leads (e : Editor α T) (s : End) (k : Key) :
    (e.restack s k).Leads e e.interaction := by
  rcases e.restack_cases s k with ⟨answer, hreply⟩ | ⟨old, new, hreply⟩
  · rw [hreply]
    exact .refl e _ []
  · rw [hreply]
    exact (commit_leads e _ false).map _

theorem applyEntry_leads (e : Editor α T) (entry : Entry α) :
    (e.applyEntry entry).Leads e (e.interaction.run
      (if e.interaction.selected.isSome then some .cancel else none).toList) := by
  rw [applyEntry]
  cases e.interaction.selected with
  | none => exact ⟨rfl, rfl⟩
  | some k =>
    refine (track_leads _ _ _).bind ?_
    cases entry.resolve with
    | error err => exact ⟨rfl, rfl⟩
    | ok t => exact commitTransform_leads _ _ _ _

theorem release_leads (e : Editor α T) (p : Point α) :
    (e.release p).Leads e (e.interaction.release p).2 := by
  simp only [release]
  refine (track_leads _ _ _).bind ?_
  simp only [track]
  cases (e.interaction.release p).1 with
  | none => exact ⟨rfl, rfl⟩
  | some commit =>
    refine (commitTransform_leads _ _ _ _).bind ?_
    split <;> exact ⟨(commitTransform_leads _ _ _ _).interaction, rfl⟩

theorem StepsHistory.leads {e : Editor α T} {q : Reply α T (Except (Error α) Bool)}
    (h : e.StepsHistory q) : q.Leads e e.interaction.cancel := by
  rcases h with ⟨answer, log, rfl⟩ | ⟨k, s, history, log, rfl⟩
  · exact (track_leads _ _ _).bind (.refl _ _ _)
  · exact (track_leads _ _ _).bind ⟨rfl, rfl⟩

omit [Region α T] in
theorem setViewSize_leads (e : Editor α T) (size : Size α) :
    (e.setViewSize size).Leads e (e.interaction.setViewSize size) := by
  rw [setViewSize, Interaction.setViewSize]
  split
  · rename_i hsame
    rw [View.setSize, if_pos hsame]
    exact .refl e () []
  · exact ⟨rfl, rfl⟩

/-- **To the interaction a request is at most one event** (`event?`). -/
theorem perform_leads (e : Editor α T) (r : Request α T) :
    (e.perform r).Leads e (e.interaction.run (e.event? r).toList) := by
  cases r with
  | load d => exact ⟨rfl, rfl⟩
  | add d => exact ⟨rfl, rfl⟩
  | replaceItem k item =>
    refine Reply.Leads.map ?_ _
    rw [replaceItem]
    split <;> exact ⟨rfl, rfl⟩
  | delete k => exact (commitKey_leads e k _).map _
  | edit k item => exact (commitKey_leads e k _).map _
  | raise k => exact (restack_leads e .top k).map _
  | lower k => exact (restack_leads e .bottom k).map _
  | applyEntry entry => exact (applyEntry_leads e entry).map _
  | release p => exact (release_leads e p).map _
  | undo => exact (travel_stepsHistory e .back).leads.map _
  | redo => exact (travel_stepsHistory e .forth).leads.map _
  | setViewSize size => exact (setViewSize_leads e size).map fun _ => Answer.nothing
  | press | move | deselect | setMode | setLock | setAnchorMode | setFrame | setSnapping =>
    exact ⟨rfl, rfl⟩

/-! ## The phases of a session -/

theorem coherent_session (settings : Settings α) (rs : List (Request α T)) :
    ((ofSettings settings).run rs).interaction.Coherent := by
  refine run_induction (P := fun e : Editor α T => e.interaction.Coherent) (fun e r h => ?_) ?_ rs
  · rw [(perform_leads e r).interaction]
    exact h.run _
  · exact (Interaction.coherent_ofView (.ofSize settings.viewSize)).run
      [.setGrid settings.grid, .setSnapping settings.snapping, .setFrame settings.frame]

/-! ## The selected object -/

/-- **The selected object is on the canvas.** -/
def Attends (e : Editor α T) : Prop :=
  ∀ k, e.interaction.selected = some k → e.canvas.contains k = true

theorem contains_of_hitAt {e : Editor α T} {p : Point α} {hit : Hit α Key}
    (h : e.hitAt p = some hit) : e.canvas.contains hit.key = true := by
  simp only [hitAt, Option.bind_eq_bind, Option.bind_eq_some_iff] at h
  obtain ⟨k, -, bounds, hbounds, heq⟩ := h
  obtain ⟨d, hd, -⟩ := Option.map_eq_some_iff.mp hbounds
  cases heq
  rw [Canvas.contains_eq, hd, Option.isSome_some]

omit [Region α T] in
theorem asked_deletion {e : Editor α T} {r : Request α T} {k : Key}
    {held : Option (Drawable α T)} (h : e.asked r = some (.deletion k held)) : r = .delete k := by
  cases r with
  | delete k' =>
    cases h
    rfl
  | edit k' item => cases h
  | raise k' | lower k' =>
    obtain ⟨d, n, -, hch⟩ := restacking?_eq_some h
    cases hch
  | applyEntry entry =>
    simp only [asked, Option.bind_eq_bind, Option.bind_eq_some_iff] at h
    obtain ⟨k', -, t, -, hch⟩ := h
    obtain ⟨inverse, -, hch⟩ := transforming_eq_some hch
    cases hch
  | release p =>
    simp only [asked, Option.bind_eq_bind, Option.bind_eq_some_iff] at h
    obtain ⟨c, -, hch⟩ := h
    obtain ⟨inverse, -, hch⟩ := transforming_eq_some hch
    cases hch
  | _ => cases h

/-- Only undoing, redoing and its deletion take an object off the canvas. -/
theorem Performed.contains {e : Editor α T} {r : Request α T} {q : Reply α T (Answer α)}
    (h : Performed e q r) {k : Key} (hk : e.canvas.contains k = true) (hundo : r ≠ .undo)
    (hredo : r ≠ .redo) (hdelete : r ≠ .delete k) : q.editor.canvas.contains k = true := by
  cases h with
  | kept hkeeps =>
    rw [hkeeps.canvas]
    exact hk
  | @made _ ch ch' _ hask happly =>
    obtain ⟨s, s', hslot, happlies, hcanvas⟩ := Change.apply_eq_ok happly
    rw [hcanvas]
    by_cases hkey : k = ch.key
    · rw [hkey, Canvas.contains_eq, Canvas.get?_put_self hslot]
      cases happlies with
      | delete =>
        rw [hkey] at hdelete
        exact absurd (asked_deletion hask) hdelete
      | _ => rfl
    · rw [Canvas.contains_eq, Canvas.get?_put_ne hkey]
      exact hk
  | undone => exact absurd rfl hundo
  | redone => exact absurd rfl hredo
  | loaded hcanvas =>
    rw [hcanvas]
    exact Canvas.contains_extend hk _
  | added hcanvas =>
    rw [hcanvas]
    exact Canvas.contains_extend hk _
  | replaced hslot hcanvas =>
    rw [hcanvas, Canvas.contains_put_some hslot]
    exact hk

theorem event?_eq_press {e : Editor α T} {r : Request α T} {p : Point α} {hit : Hit α Key}
    (h : e.event? r = some (.press p (some hit))) : r = .press p ∧ e.hitAt p = some hit := by
  cases r with
  | press p' =>
    simp only [event?, Option.some.injEq, Interaction.Event.press.injEq] at h
    obtain ⟨rfl, hhit⟩ := h
    split at hhit
    · cases hhit
    · exact ⟨rfl, hhit⟩
  | delete | edit | applyEntry =>
    rw [event?] at h
    split at h <;> cases h
  | _ => cases h

theorem selected_perform {e : Editor α T} {r : Request α T} {k : Key}
    (h : (e.perform r).editor.interaction.selected = some k) :
    (e.interaction.selected = some k ∧ e.event? r ≠ some .cancel) ∨
      ∃ p hit, r = .press p ∧ e.hitAt p = some hit ∧ hit.key = k := by
  rw [(perform_leads e r).interaction] at h
  cases hevent : e.event? r with
  | none =>
    rw [hevent] at h
    exact .inl ⟨h, nofun⟩
  | some event =>
    rw [hevent] at h
    rcases Interaction.selected_handle h with ⟨hsame, hcancel⟩ | ⟨p, hit, rfl, hkey⟩
    · exact .inl ⟨hsame, fun heq => hcancel (Option.some.inj heq)⟩
    · obtain ⟨hpress, hhit⟩ := event?_eq_press hevent
      exact .inr ⟨p, hit, hpress, hhit, hkey⟩

theorem Attends.perform {e : Editor α T} (h : e.Attends) (r : Request α T) :
    (e.perform r).editor.Attends := by
  intro k hk
  rcases selected_perform hk with ⟨hselected, hcancel⟩ | ⟨p, hit, rfl, hhit, rfl⟩
  · refine (performed e r).contains (h k hselected) ?_ ?_ ?_
    · rintro rfl
      exact hcancel rfl
    · rintro rfl
      exact hcancel rfl
    · rintro rfl
      exact hcancel (if_pos hselected)
  · exact (performed e (.press p)).contains (contains_of_hitAt hhit) nofun nofun nofun

theorem attends_session (settings : Settings α) (rs : List (Request α T)) :
    ((ofSettings settings).run rs).Attends := by
  refine run_induction (P := Attends) (fun e r h => h.perform r) (fun k hk => ?_) rs
  have hnone : (ofSettings settings : Editor α T).interaction.selected = none := by
    rw [ofSettings]
    cases settings.frame <;> rfl
  rw [hnone] at hk
  cases hk

/-! ## Transforms of an object that is there -/

theorem commitTransform_of_contains {e : Editor α T} {k : Key} (h : e.canvas.contains k = true)
    (t : Affine α) (frame : Frame) :
    (∀ err, (e.commitTransform k t frame).answer ≠ .error (.canvas err)) ∧
      ∀ l, .vanished l ∉ (e.commitTransform k t frame).log := by
  obtain ⟨d, hd⟩ := Option.isSome_iff_exists.mp h
  rw [commitTransform]
  split
  · exact ⟨fun err herror => (by cases herror), fun l hl => by cases hl⟩
  · rw [Transformation.new?]
    cases t.inverse? with
    | error err =>
      exact ⟨fun err herror => (by cases herror), fun l hl => by cases List.mem_singleton.mp hl⟩
    | ok inverse =>
      simp only [Except.map]
      rcases e.commit_cases (.transformation ⟨k, t, inverse, frame, none⟩) true with
        ⟨err, hrefused, -⟩ | ⟨s, ch', s', -, -, hreply⟩
      · rw [Change.apply_of_applies (Canvas.get?_eq_some_iff.mp hd) (.transform rfl)] at hrefused
        cases hrefused
      · rw [hreply]
        exact ⟨fun err herror => (by cases herror), fun l hl => by cases List.mem_singleton.mp hl⟩

theorem Attends.release {e : Editor α T} (h : e.Attends) (p : Point α) :
    (∀ k, .vanished k ∉ (e.release p).log) ∧
      ∀ err, (e.release p).answer ≠ .error (.canvas err) := by
  simp only [Editor.release, track, Reply.bind, List.nil_append]
  cases hcommit : (e.interaction.release p).1 with
  | none => exact ⟨fun k hk => (by cases hk), fun err herror => by cases herror⟩
  | some commit =>
    have hlive := h _ (Interaction.key_release hcommit)
    obtain ⟨hanswer, hlog⟩ :=
      commitTransform_of_contains (e := { e with interaction := (e.interaction.release p).2 })
        hlive commit.transform commit.frame
    simp only
    split
    · rename_i k herror
      exact absurd herror (hanswer _)
    · exact ⟨fun k hk => hlog k (by simpa using hk), hanswer⟩

theorem Attends.applyEntry {e : Editor α T} (h : e.Attends) (entry : Entry α)
    (err : Canvas.Error) : (e.applyEntry entry).answer ≠ .error (.canvas err) := by
  rw [Editor.applyEntry]
  cases hselected : e.interaction.selected with
  | none => exact fun herror => by cases herror
  | some k =>
    simp only [Reply.bind, deselect, track]
    cases entry.resolve with
    | error err => exact fun herror => by cases herror
    | ok t =>
      exact (commitTransform_of_contains (e := { e with interaction := e.interaction.cancel })
        (h k hselected) t _).1 err

/-- **The selected object is never missing** (`Attends`). -/
theorem selected_object_is_live (settings : Settings α) (rs : List (Request α T)) :
    let e := (ofSettings settings).run rs
    (∀ k, e.interaction.selected = some k → e.canvas.contains k = true) ∧
    (∀ p, (∀ k, .vanished k ∉ (e.release p).log) ∧
      ∀ err, (e.release p).answer ≠ .error (.canvas err)) ∧
    (∀ entry err, (e.applyEntry entry).answer ≠ .error (.canvas err)) ∧
    (∀ k t, e.interaction.tentative = some (k, t) → e.canvas.contains k = true) := by
  intro e
  have hattends : e.Attends := attends_session settings rs
  refine ⟨hattends, fun p => ?_, fun entry err => ?_, fun k t htentative => ?_⟩
  · exact hattends.release p
  · exact hattends.applyEntry entry err
  · exact hattends k (Interaction.selected_of_tentative htentative)

end Editor

end VectorEditor
