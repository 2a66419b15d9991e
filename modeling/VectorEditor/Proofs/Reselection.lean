import VectorEditor.Proofs.Pointer

/-!
# Changes of the selection

The revision of the selection stands for its key and its anchor: it goes up by one when they are
exchanged (`Selection.Renews`), and the editor has the selection painted again when it sees another
revision. A request does so at most once (`Editor.Reply.Reselects`), so the requests to paint count
the changes. Only an anchor that is not a number is exchanged for itself, because it is not equal to
itself.
-/

namespace VectorEditor

variable {α T K R R' : Type}

/-! ## One change of the selection -/

namespace Selection

/-- What a selection shows: the selected key and the anchor. -/
def mark (s : Selection α K) : Option K × Point α := (s.key, s.anchor)

variable [Scalar α]

/-- The second selection follows the first one: its revision is the next one, and it shows something
else unless the anchor is not equal to itself. -/
structure Renews (s s' : Selection α K) : Prop where
  revision : s'.revision = s.revision + 1
  mark : s'.mark = s.mark → (s.anchor == s.anchor) = false

theorem Renews.revision_ne {s s' : Selection α K} (h : s.Renews s') : s'.revision ≠ s.revision := by
  rw [h.revision]
  simp

theorem clear_cases (s : Selection α K) : s.clear = s ∨ s.Renews s.clear := by
  rw [clear]
  split
  · exact .inl rfl
  · rename_i hchanged
    -- the old anchor failed the comparison with the new one, so if they are one it fails with itself
    refine .inr ⟨rfl, fun hmark => ?_⟩
    obtain ⟨hkey, hanchor⟩ := Prod.mk.inj hmark
    simp only at hkey hanchor
    rw [hanchor, ← hkey] at hchanged
    simpa using hchanged

theorem select_cases [DecidableEq K] (s : Selection α K) (k : K) (anchor : Point α) :
    (s.select k anchor).2 = s ∨ s.Renews (s.select k anchor).2 := by
  rw [select]
  split
  · exact .inl rfl
  · rename_i hchanged
    refine .inr ⟨rfl, fun hmark => ?_⟩
    obtain ⟨hkey, hanchor⟩ := Prod.mk.inj hmark
    simp only at hkey hanchor
    rw [hanchor, ← hkey] at hchanged
    simpa using hchanged

end Selection

namespace Interaction

variable [Scalar α]

theorem selection_release (ix : Interaction α K) (p : Point α) :
    (ix.release p).2.selection = ix.selection ∨
      ix.selection.Renews (ix.release p).2.selection := by
  rw [release]
  split
  · exact .inl rfl
  · exact .inl rfl
  · split <;> exact ix.selection.clear_cases

theorem selection_press [DecidableEq K] (ix : Interaction α K) (p : Point α)
    (hit : Option (Hit α K)) :
    (ix.press p hit).2.selection = ix.selection ∨
      ix.selection.Renews (ix.press p hit).2.selection := by
  rcases ix.press_cases p hit with
    hpress | ⟨-, hpress | hpress | ⟨hit, _, rfl, rfl, hpress | ⟨kind, hpress⟩⟩⟩
  all_goals rw [hpress]
  · exact .inl rfl
  · exact .inl rfl
  · exact ix.selection.clear_cases
  · exact ix.selection.select_cases _ _
  · exact ix.selection.select_cases _ _

end Interaction

namespace Editor

/-! ## Requests to paint the selection -/

def Redraw.isSelection : Redraw α → Bool
  | .selection => true
  | _ => false

/-- How often the selection is among requests to paint. -/
def reselections (redraws : List (Redraw α)) : Nat := redraws.countP Redraw.isSelection

theorem reselections_append (xs ys : List (Redraw α)) :
    reselections (xs ++ ys) = reselections xs + reselections ys :=
  List.countP_append

theorem reselections_damage (before after : Option (Rect α)) :
    reselections (damage before after) = 0 := by
  rw [damage]
  split <;> rfl

/-- The reply leaves the selection alone and does not have it painted. -/
structure Reply.Spares (e : Editor α T) (q : Reply α T R) : Prop where
  selection : q.editor.interaction.selection = e.interaction.selection
  quiet : reselections q.redraws = 0

/-- The reply leaves the selection alone, or changes it and has it painted once. -/
def Reply.Reselects [Scalar α] (e : Editor α T) (q : Reply α T R) : Prop :=
  q.Spares e ∨
    e.interaction.selection.Renews q.editor.interaction.selection ∧ reselections q.redraws = 1

namespace Reply.Spares

variable {e : Editor α T} {q : Reply α T R}

theorem refl (e : Editor α T) (answer : R) (log : List (Notice α)) :
    Reply.Spares e { answer, editor := e, log } :=
  ⟨rfl, rfl⟩

theorem map (h : q.Spares e) (f : R → R') : (q.map f).Spares e := ⟨h.selection, h.quiet⟩

theorem bind (h : q.Spares e) {next : R → Editor α T → Reply α T R'}
    (hnext : (next q.answer q.editor).Spares q.editor) : (q.bind next).Spares e := by
  refine ⟨hnext.selection.trans h.selection, ?_⟩
  rw [Reply.bind, reselections_append, h.quiet, hnext.quiet]

end Reply.Spares

variable [Scalar α]

namespace Reply.Reselects

variable {e : Editor α T} {q : Reply α T R}

theorem map (h : q.Reselects e) (f : R → R') : (q.map f).Reselects e := by
  rcases h with hspares | hrenews
  · exact .inl (hspares.map f)
  · exact .inr hrenews

theorem bind (h : q.Reselects e) {next : R → Editor α T → Reply α T R'}
    (hnext : (next q.answer q.editor).Spares q.editor) : (q.bind next).Reselects e := by
  rcases h with hspares | ⟨hrenews, honce⟩
  · exact .inl (hspares.bind hnext)
  · refine .inr ⟨?_, ?_⟩
    · rw [Reply.bind, hnext.selection]
      exact hrenews
    · rw [Reply.bind, reselections_append, honce, hnext.quiet]

theorem reselections_of_mark_ne (h : q.Reselects e)
    (hmark : q.editor.interaction.selection.mark ≠ e.interaction.selection.mark) :
    reselections q.redraws = 1 := by
  rcases h with hspares | ⟨-, honce⟩
  · rw [hspares.selection] at hmark
    exact absurd rfl hmark
  · exact honce

theorem reselections_of_mark_eq (h : q.Reselects e)
    (hmark : q.editor.interaction.selection.mark = e.interaction.selection.mark)
    (hnumber : (e.interaction.selection.anchor == e.interaction.selection.anchor) = true) :
    reselections q.redraws = 0 := by
  rcases h with hspares | ⟨hrenews, -⟩
  · exact hspares.quiet
  · rw [hrenews.mark hmark] at hnumber
    cases hnumber

end Reply.Reselects

/-- Another state of the interaction shows itself by the revision of its selection. -/
theorem track_reselects (e : Editor α T) (answer : R) {ix : Interaction α Key}
    (h : ix.selection = e.interaction.selection ∨ e.interaction.selection.Renews ix.selection) :
    (e.track answer ix).Reselects e := by
  rcases h with hsame | hrenews
  · refine .inl ⟨hsame, ?_⟩
    rw [track, if_pos (by rw [hsame])]
    rfl
  · refine .inr ⟨hrenews, ?_⟩
    rw [track, if_neg hrenews.revision_ne]
    rfl

theorem deselect_reselects (e : Editor α T) : e.deselect.Reselects e :=
  track_reselects e () e.interaction.selection.clear_cases

theorem setMode_reselects (e : Editor α T) (mode : Mode) : (e.setMode mode).Reselects e :=
  track_reselects e () e.interaction.selection.clear_cases

theorem deselectKey_reselects (e : Editor α T) (k : Key) : (e.deselectKey k).Reselects e := by
  rw [deselectKey]
  split
  · exact deselect_reselects e
  · exact .inl (.refl e () [])

theorem move_spares (e : Editor α T) (p : Point α) : (e.move p).Spares e := by
  refine ⟨e.interaction.selection_move p, ?_⟩
  simp only [move]
  split
  · split <;> rfl
  · rfl
  · rfl

theorem setViewSize_spares (e : Editor α T) (size : Size α) : (e.setViewSize size).Spares e := by
  rw [setViewSize]
  split
  · exact .refl e () []
  · exact ⟨rfl, rfl⟩

omit [Scalar α] in
theorem replaceItem_spares (e : Editor α T) (k : Key) (item : T) :
    (e.replaceItem k item).Spares e := by
  rw [replaceItem]
  split <;> exact ⟨rfl, rfl⟩

variable [Region α T]

theorem commit_spares (e : Editor α T) (ch : Change α T) (withBefore : Bool) :
    (e.commit ch withBefore).Spares e := by
  rcases e.commit_cases ch withBefore with ⟨err, -, hreply⟩ | ⟨s, ch', s', -, -, hreply⟩
  · rw [hreply]
    exact .refl e _ _
  · rw [hreply]
    exact ⟨rfl, reselections_damage _ _⟩

theorem restack_spares (e : Editor α T) (s : End) (k : Key) : (e.restack s k).Spares e := by
  rcases e.restack_cases s k with ⟨answer, hreply⟩ | ⟨old, new, hreply⟩
  · rw [hreply]
    exact .refl e _ []
  · rw [hreply]
    exact (commit_spares e _ false).map _

theorem commitTransform_spares (e : Editor α T) (k : Key) (t : Affine α) (frame : Frame) :
    (e.commitTransform k t frame).Spares e := by
  rw [commitTransform]
  split
  · exact .refl e _ []
  · split
    · exact .refl e _ _
    · exact (commit_spares e _ true).map _

theorem applyEntry_reselects (e : Editor α T) (entry : Entry α) :
    (e.applyEntry entry).Reselects e := by
  rw [applyEntry]
  split
  · exact .inl (.refl e _ [])
  · refine (deselect_reselects e).bind ?_
    split
    · exact .refl _ _ []
    · exact commitTransform_spares _ _ _ _

theorem press_reselects (e : Editor α T) (p : Point α) : (e.press p).Reselects e := by
  have hpress := e.interaction.selection_press p
    (if e.interaction.mode = .pan then none else e.hitAt p)
  simp only [press]
  generalize e.interaction.press p _ = outcome at hpress ⊢
  refine (track_reselects e outcome.1 hpress).bind ⟨rfl, ?_⟩
  simp only
  split
  · split <;> rfl
  · rfl

theorem release_reselects (e : Editor α T) (p : Point α) : (e.release p).Reselects e := by
  simp only [release]
  refine (track_reselects e _ (e.interaction.selection_release p)).bind ?_
  split
  · exact .refl _ _ []
  · refine (commitTransform_spares _ _ _ _).bind ?_
    split <;> exact ⟨rfl, rfl⟩

theorem StepsHistory.reselects {e : Editor α T} {q : Reply α T (Except (Error α) Bool)}
    (h : e.StepsHistory q) : q.Reselects e := by
  rcases h with ⟨answer, log, rfl⟩ | ⟨k, s, history, log, rfl⟩
  · exact (deselect_reselects e).bind (.refl _ _ _)
  · exact (deselect_reselects e).bind ⟨rfl, reselections_damage _ _⟩

theorem perform_reselects (e : Editor α T) (r : Request α T) : (e.perform r).Reselects e := by
  cases r with
  | load d => exact .inl ⟨rfl, reselections_damage _ _⟩
  | add d => exact .inl ⟨rfl, reselections_damage _ _⟩
  | delete k => exact ((deselectKey_reselects e k).bind (commit_spares _ _ _)).map _
  | edit k item => exact ((deselectKey_reselects e k).bind (commit_spares _ _ _)).map _
  | replaceItem k item => exact .inl ((replaceItem_spares e k item).map _)
  | raise k => exact .inl ((restack_spares e .top k).map _)
  | lower k => exact .inl ((restack_spares e .bottom k).map _)
  | applyEntry entry => exact (applyEntry_reselects e entry).map _
  | press p => exact (press_reselects e p).map _
  | move p => exact .inl ((move_spares e p).map _)
  | release p => exact (release_reselects e p).map _
  | undo => exact (travel_stepsHistory e .back).reselects.map _
  | redo => exact (travel_stepsHistory e .forth).reselects.map _
  | deselect => exact (deselect_reselects e).map fun _ => Answer.nothing
  | setMode mode => exact (setMode_reselects e mode).map fun _ => Answer.nothing
  | setFrame frame => cases frame <;> exact .inl ⟨rfl, rfl⟩
  | setViewSize size => exact .inl ((setViewSize_spares e size).map fun _ => Answer.nothing)
  | setLock | setAnchorMode | setSnapping => exact .inl ⟨rfl, rfl⟩

/-! ## Sessions -/

/-- How often the selection changes in the course of a session, by the requests to paint it. -/
def reselectionCount (e : Editor α T) : List (Request α T) → Nat
  | [] => 0
  | r :: rs => reselections (e.perform r).redraws + reselectionCount (e.perform r).editor rs

theorem reselections_le_one (e : Editor α T) (r : Request α T) :
    reselections (e.perform r).redraws ≤ 1 := by
  rcases perform_reselects e r with hspares | ⟨-, honce⟩
  · rw [hspares.quiet]
    exact Nat.zero_le 1
  · exact Nat.le_of_eq honce

theorem reselectionCount_le (e : Editor α T) (rs : List (Request α T)) :
    e.reselectionCount rs ≤ rs.length := by
  induction rs generalizing e with
  | nil => exact Nat.le_refl 0
  | cons r rs ih =>
    have hfirst := reselections_le_one e r
    have hrest := ih (e.perform r).editor
    rw [reselectionCount, List.length_cons]
    omega

theorem revision_perform (e : Editor α T) (r : Request α T) :
    (e.perform r).editor.interaction.selection.revision =
      e.interaction.selection.revision + UInt64.ofNat (reselections (e.perform r).redraws) := by
  rcases perform_reselects e r with hspares | ⟨hrenews, honce⟩
  · rw [hspares.selection, hspares.quiet]
    exact (UInt64.add_zero _).symm
  · rw [hrenews.revision, honce]
    rfl

theorem revision_run (e : Editor α T) (rs : List (Request α T)) :
    (e.run rs).interaction.selection.revision =
      e.interaction.selection.revision + UInt64.ofNat (e.reselectionCount rs) := by
  induction rs generalizing e with
  | nil => exact (UInt64.add_zero _).symm
  | cons r rs ih =>
    calc (e.run (r :: rs)).interaction.selection.revision
        = ((e.perform r).editor.run rs).interaction.selection.revision := rfl
      _ = e.interaction.selection.revision + UInt64.ofNat (reselections (e.perform r).redraws) +
            UInt64.ofNat ((e.perform r).editor.reselectionCount rs) := by
          rw [ih, revision_perform]
      _ = e.interaction.selection.revision + UInt64.ofNat (e.reselectionCount (r :: rs)) := by
          rw [reselectionCount, UInt64.ofNat_add, UInt64.add_assoc]

theorem selection_run (e : Editor α T) (rs : List (Request α T))
    (h : e.reselectionCount rs = 0) : (e.run rs).interaction.selection = e.interaction.selection := by
  induction rs generalizing e with
  | nil => rfl
  | cons r rs ih =>
    rw [reselectionCount, Nat.add_eq_zero_iff] at h
    have hrest := ih (e.perform r).editor h.2
    rcases perform_reselects e r with hspares | ⟨-, honce⟩
    · exact hrest.trans hspares.selection
    · rw [honce] at h
      cases h.1

/-- A revision that was left does not come back before all the others have been there. -/
theorem revision_run_eq_iff (e : Editor α T) (rs : List (Request α T))
    (h : e.reselectionCount rs < UInt64.size) :
    (e.run rs).interaction.selection.revision = e.interaction.selection.revision ↔
      e.reselectionCount rs = 0 := by
  rw [revision_run]
  constructor
  · intro hsame
    have hzero : UInt64.ofNat (e.reselectionCount rs) = 0 := by simpa using hsame
    calc e.reselectionCount rs
        = (UInt64.ofNat (e.reselectionCount rs)).toNat := (UInt64.toNat_ofNat_of_lt' h).symm
      _ = 0 := by rw [hzero]; rfl
  · intro hzero
    rw [hzero]
    exact UInt64.add_zero _

/-- **The selection is painted exactly when its key or anchor changes** (`Selection.mark`). -/
theorem selection_repaints_exact (e : Editor α T) :
    (∀ r : Request α T,
      let q := e.perform r
      (q.editor.interaction.selection.mark ≠ e.interaction.selection.mark →
        reselections q.redraws = 1) ∧
      (q.editor.interaction.selection.mark = e.interaction.selection.mark →
        (e.interaction.selection.anchor == e.interaction.selection.anchor) = true →
        reselections q.redraws = 0)) ∧
    ∀ rs : List (Request α T),
      let e' := e.run rs
      e.reselectionCount rs ≤ rs.length ∧
      e'.interaction.selection.revision =
        e.interaction.selection.revision + UInt64.ofNat (e.reselectionCount rs) ∧
      (e.reselectionCount rs < UInt64.size →
        (0 < e.reselectionCount rs →
          e'.interaction.selection.revision ≠ e.interaction.selection.revision) ∧
        (e'.interaction.selection.revision = e.interaction.selection.revision →
          e'.interaction.selection.mark = e.interaction.selection.mark)) := by
  refine ⟨fun r => ⟨(perform_reselects e r).reselections_of_mark_ne,
    (perform_reselects e r).reselections_of_mark_eq⟩, fun rs => ?_⟩
  refine ⟨reselectionCount_le e rs, revision_run e rs, fun hfew => ⟨fun hsome hsame => ?_,
    fun hsame => ?_⟩⟩
  · exact Nat.ne_of_gt hsome ((revision_run_eq_iff e rs hfew).mp hsame)
  · exact congrArg Selection.mark (selection_run e rs ((revision_run_eq_iff e rs hfew).mp hsame))

theorem selection_repaints_exact_pressed :
    let square : Drawable Float (Shape Float) := ⟨.rect ⟨0, 0, 10, 10⟩, .identity, 0, default⟩
    let e : Editor Float (Shape Float) := (ofSettings default).run [.load square, .setMode .select]
    let r : Request Float (Shape Float) := .press ⟨5, 5⟩
    let e' : Editor Float (Shape Float) := (e.perform r).editor
    e'.interaction.selection.mark ≠ e.interaction.selection.mark ∧
      reselections (e.perform r).redraws = 1 ∧
      (e'.perform r).editor.interaction.selection.mark = e'.interaction.selection.mark ∧
      reselections (e'.perform r).redraws = 0 ∧
      (e.run [r, r, .deselect]).interaction.selection.revision ≠
        e.interaction.selection.revision := by
  intro square e r e'
  have hkey : e'.interaction.selection.key ≠ e.interaction.selection.key := by decide +kernel
  have hchanged : e'.interaction.selection.mark ≠ e.interaction.selection.mark :=
    fun hsame => hkey (congrArg Prod.fst hsame)
  have hsame : (e'.perform r).editor.interaction.selection.mark =
      e'.interaction.selection.mark := by decide +kernel
  have hnumber : (e'.interaction.selection.anchor == e'.interaction.selection.anchor) = true := by
    decide +kernel
  have hcount : e.reselectionCount [r, r, .deselect] = 2 := by decide +kernel
  have hsession := (selection_repaints_exact e).2 [r, r, .deselect]
  have hleft := (hsession.2.2 (by rw [hcount]; decide)).1 (by rw [hcount]; decide)
  have honce := ((selection_repaints_exact e).1 r).1 hchanged
  have hnone := ((selection_repaints_exact e').1 r).2 hsame hnumber
  exact ⟨hchanged, honce, hsame, hnone, hleft⟩

end Editor

end VectorEditor
