import VectorEditor.Proofs.Pointer

/-!
# What is painted again

Whoever looks at the window relies on the requests to paint that come with every reply. A request
changes one object at most, and its damage is made up of the rectangles around that object before
and after (`Reply.Accounts`), so that a changed object is never left as it was painted before.
-/

namespace VectorEditor.Editor

variable {α T R R' : Type}

/-! ## Damage -/

/-- The damage that a request to paint is about, if it is about a change of objects. -/
def Redraw.damage? : Redraw α → Option (Damage α)
  | .committed d => some d
  | _ => none

/-- The damages among requests to paint. -/
def damages (redraws : List (Redraw α)) : List (Damage α) := redraws.filterMap Redraw.damage?

theorem damages_append (xs ys : List (Redraw α)) : damages (xs ++ ys) = damages xs ++ damages ys :=
  List.filterMap_append

theorem damages_eq_nil {redraws : List (Redraw α)} (h : ∀ d, .committed d ∉ redraws) :
    damages redraws = [] := by
  rw [damages, List.filterMap_eq_nil_iff]
  intro redraw hmem
  cases redraw with
  | committed d => exact absurd hmem (h d)
  | _ => rfl

theorem damages_damage {before after : Option (Rect α)}
    (h : before.toList ++ after.toList ≠ []) :
    damages (damage before after) = [⟨before.toList ++ after.toList⟩] := by
  rw [damage]
  split
  · rename_i hnil
    exact absurd hnil h
  · rfl

/-! ## Changes of objects -/

section repaints

variable [Scalar α] [Region α T]

/-- The reply changes the object of the key `k` at most, and has it painted again around where it
was and where it is. -/
structure Reply.Repaints (e : Editor α T) (k : Key) (q : Reply α T R) : Prop where
  others : ∀ l, l ≠ k → q.editor.canvas.get? l = e.canvas.get? l
  covers : ∃ before after, damages q.redraws = damages (damage before after) ∧
    ∀ rect, (before = some rect ∨ after = some rect) ↔
      (e.canvas.worldBounds? k = some rect ∨ q.editor.canvas.worldBounds? k = some rect)

/-- The reply leaves the drawing alone, or has the one object painted again that it changes. -/
def Reply.Accounts (e : Editor α T) (q : Reply α T R) : Prop :=
  q.Keeps e ∨ ∃ k, q.Repaints e k

theorem Reply.Repaints.exists_damage {e : Editor α T} {k : Key} {q : Reply α T R}
    (h : q.Repaints e k) (hchanged : q.editor.canvas.get? k ≠ e.canvas.get? k) :
    ∃ d, damages q.redraws = [d] ∧ ∀ rect, rect ∈ d.rects ↔
      (e.canvas.worldBounds? k = some rect ∨ q.editor.canvas.worldBounds? k = some rect) := by
  obtain ⟨before, after, hdamages, hrects⟩ := h.covers
  have hmem : ∀ rect, rect ∈ before.toList ++ after.toList ↔
      (e.canvas.worldBounds? k = some rect ∨ q.editor.canvas.worldBounds? k = some rect) := by
    intro rect
    rw [List.mem_append, Option.mem_toList, Option.mem_toList]
    exact hrects rect
  refine ⟨⟨before.toList ++ after.toList⟩, ?_, hmem⟩
  rw [hdamages]
  refine damages_damage fun hnil => hchanged ?_
  rw [hnil] at hmem
  -- without a rectangle the object was not there before and is not there now
  have habsent : ∀ c : Canvas α T, (∀ rect, c.worldBounds? k ≠ some rect) → c.get? k = none := by
    intro c hc
    cases hd : c.get? k with
    | none => rfl
    | some d => exact absurd (by rw [Canvas.worldBounds?, hd, Option.map_some]) (hc d.worldBounds)
  have hbefore := habsent e.canvas fun rect hrect => nomatch (hmem rect).mpr (.inl hrect)
  have hafter := habsent q.editor.canvas fun rect hrect => nomatch (hmem rect).mpr (.inr hrect)
  rw [hbefore, hafter]

namespace Reply.Accounts

variable {e : Editor α T} {q : Reply α T R}

theorem map (h : q.Accounts e) (f : R → R') : (q.map f).Accounts e := by
  rcases h with hkeeps | ⟨k, hrepaints⟩
  · exact .inl (hkeeps.map f)
  · exact .inr ⟨k, hrepaints.others, hrepaints.covers⟩

theorem after (hkeeps : q.Keeps e) {next : R → Editor α T → Reply α T R'}
    (h : (next q.answer q.editor).Accounts q.editor) : (q.bind next).Accounts e := by
  rcases h with hnext | ⟨k, hothers, hcovers⟩
  · exact .inl (hkeeps.bind hnext)
  · refine .inr ⟨k, fun l hl => ?_, ?_⟩
    · rw [← hkeeps.canvas]
      exact hothers l hl
    · rw [hkeeps.canvas] at hcovers
      rw [Reply.bind, damages_append, damages_eq_nil hkeeps.quiet, List.nil_append]
      exact hcovers

theorem before (h : q.Accounts e) {next : R → Editor α T → Reply α T R'}
    (hnext : (next q.answer q.editor).Keeps q.editor) : (q.bind next).Accounts e := by
  rcases h with hkeeps | ⟨k, hothers, hcovers⟩
  · exact .inl (hkeeps.bind hnext)
  · refine .inr ⟨k, fun l hl => ?_, ?_⟩
    · rw [Reply.bind, hnext.canvas]
      exact hothers l hl
    · rw [Reply.bind, damages_append, damages_eq_nil hnext.quiet, List.append_nil, hnext.canvas]
      exact hcovers

theorem get?_eq (h : q.Accounts e) (hnil : damages q.redraws = []) :
    q.editor.canvas.get? = e.canvas.get? := by
  rcases h with hkeeps | ⟨k, hrepaints⟩
  · rw [hkeeps.canvas]
  · funext l
    by_cases hl : l = k
    · subst hl
      refine Classical.byContradiction fun hchanged => ?_
      obtain ⟨d, hd, -⟩ := hrepaints.exists_damage hchanged
      rw [hnil] at hd
      cases hd
    · exact hrepaints.others l hl

end Reply.Accounts

theorem commit_accounts (e : Editor α T) (ch : Change α T) : (e.commit ch true).Accounts e := by
  rcases e.commit_cases ch true with ⟨err, -, hreply⟩ | ⟨s, ch', s', -, -, hreply⟩
  · rw [hreply]
    exact .inl (.refl e _ _)
  · rw [hreply]
    exact .inr ⟨ch.key, fun l hl => Canvas.get?_put_ne hl _ _, _, _, rfl, fun _ => Iff.rfl⟩

/-- The order is no part of `worldBounds?`, so the rectangle after the change is enough. -/
theorem reorder_accounts (e : Editor α T) (k : Key) (old new : Int32) :
    (e.reorder k old new).Accounts e := by
  refine Reply.Accounts.map ?_ _
  rcases e.commit_cases (.reorder k old new) false with
    ⟨err, -, hreply⟩ | ⟨s, ch', s', hslot, happlies, hreply⟩
  · rw [hreply]
    exact .inl (.refl e _ _)
  · rw [hreply]
    refine .inr ⟨k, fun l hl => Canvas.get?_put_ne hl _ _, _, _, rfl, fun rect => ?_⟩
    cases happlies with
    | @reorder _ _ _ d =>
      have hslot : e.canvas.slot? k = some (some d) := hslot
      have hsame : (e.canvas.put k (some { d with order := new })).worldBounds? k =
          e.canvas.worldBounds? k := by
        rw [Canvas.worldBounds?, Canvas.get?_put_self hslot, Canvas.worldBounds?,
          Canvas.get?_of_slot? hslot]
        rfl
      simp only [Change.key, hsame, Bool.false_eq_true, if_false, reduceCtorEq, false_or, or_self]

theorem restack_accounts (e : Editor α T) (s : End) (k : Key) : (e.restack s k).Accounts e := by
  rcases e.restack_cases s k with ⟨answer, hreply⟩ | ⟨old, new, hreply⟩
  · rw [hreply]
    exact .inl (.refl e _ [])
  · rw [hreply]
    exact reorder_accounts e k old new

theorem commitTransform_accounts (e : Editor α T) (k : Key) (t : Affine α) (frame : Frame) :
    (e.commitTransform k t frame).Accounts e := by
  rw [commitTransform]
  split
  · exact .inl (.refl e _ [])
  · split
    · exact .inl (.refl e _ _)
    · exact (commit_accounts e _).map _

theorem applyEntry_accounts (e : Editor α T) (entry : Entry α) :
    (e.applyEntry entry).Accounts e := by
  rw [applyEntry]
  split
  · exact .inl (.refl e _ [])
  · refine .after (track_keeps _ _ _) ?_
    split
    · exact .inl (.refl _ _ [])
    · exact commitTransform_accounts _ _ _ _

theorem release_accounts (e : Editor α T) (p : Point α) : (e.release p).Accounts e := by
  simp only [release]
  refine .after (track_keeps _ _ _) ?_
  split
  · exact .inl (.refl _ _ [])
  · refine (commitTransform_accounts _ _ _ _).before ?_
    split
    · exact .refl _ _ _
    · exact .refl _ _ []

/-- Should keys have run out, the object under the key given out is not the new one. -/
theorem repaints_of_extend {e : Editor α T} {q : Reply α T R} {d : Drawable α T}
    (hcanvas : q.editor.canvas = e.canvas.extend (some d))
    (hredraws : q.redraws = damage none (q.editor.canvas.worldBounds? e.canvas.nextKey)) :
    q.Accounts e := by
  refine .inr ⟨e.canvas.nextKey, fun l hl => ?_, none, _, by rw [hredraws], fun rect => ?_⟩
  · rw [hcanvas, Canvas.get?_extend_ne hl]
  · have hstays : e.canvas.worldBounds? e.canvas.nextKey = some rect →
        q.editor.canvas.worldBounds? e.canvas.nextKey = some rect := by
      intro hrect
      obtain ⟨d', hd', hbounds⟩ := Option.map_eq_some_iff.mp hrect
      rw [Canvas.worldBounds?, hcanvas, Canvas.get?_extend_of_some hd', Option.map_some, hbounds]
    simp only [reduceCtorEq, false_or]
    exact ⟨.inr, fun h => h.elim hstays id⟩

theorem StepsHistory.accounts {e : Editor α T} {q : Reply α T (Except (Error α) Bool)}
    (h : e.StepsHistory q) : q.Accounts e := by
  rcases h with ⟨answer, log, rfl⟩ | ⟨k, s, history, log, rfl⟩
  · exact .after (track_keeps _ _ _) (.inl (.refl _ _ _))
  · refine .after (track_keeps _ _ _) (.inr ⟨k, fun l hl => ?_, _, _, rfl, fun _ => Iff.rfl⟩)
    exact Canvas.get?_put_ne hl _ _

/-- **Every request that does not bypass the history accounts for what it changes.** -/
theorem perform_accounts (e : Editor α T) {r : Request α T} (hrecorded : r.bypasses = false) :
    (e.perform r).Accounts e := by
  cases r with
  | replaceItem k item => cases hrecorded
  | load d => exact repaints_of_extend (canvas_load e d) rfl
  | add d => exact repaints_of_extend (canvas_add e d) rfl
  | delete k => exact (Reply.Accounts.after (deselectKey_keeps e k) (commit_accounts _ _)).map _
  | edit k item => exact (Reply.Accounts.after (deselectKey_keeps e k) (commit_accounts _ _)).map _
  | raise k => exact (restack_accounts e .top k).map _
  | lower k => exact (restack_accounts e .bottom k).map _
  | applyEntry entry => exact (applyEntry_accounts e entry).map _
  | release p => exact (release_accounts e p).map _
  | undo => exact (travel_stepsHistory e .back).accounts.map _
  | redo => exact (travel_stepsHistory e .forth).accounts.map _
  | _ => exact .inl ((performed e _).keeps rfl rfl rfl)

theorem Performed.quiet {e : Editor α T} {r : Request α T} {q : Reply α T (Answer α)}
    (h : Performed e q r) (hplaces : r.places = false) (hrecorded : r.bypasses = false)
    (hanswer : q.answer.reports = false) : ∀ d, .committed d ∉ q.redraws := by
  cases h with
  | kept hkeeps => exact hkeeps.quiet
  | made _ _ _ _ hmade =>
    rw [hmade] at hanswer
    cases hanswer
  | undone _ _ _ hundone =>
    rw [hundone] at hanswer
    cases hanswer
  | redone _ _ _ hredone =>
    rw [hredone] at hanswer
    cases hanswer
  | loaded | added => cases hplaces
  | replaced => cases hrecorded

/-- **The damage is the rectangles of the one object that changed**, before and after. -/
theorem damage_covers_change (e : Editor α T) (r : Request α T) (hrecorded : r.bypasses = false) :
    let q := e.perform r
    (∀ k l, q.editor.canvas.get? k ≠ e.canvas.get? k → q.editor.canvas.get? l ≠ e.canvas.get? l →
      k = l) ∧
    (∀ k, q.editor.canvas.get? k ≠ e.canvas.get? k →
      ∃ d, damages q.redraws = [d] ∧ ∀ rect, rect ∈ d.rects ↔
        (e.canvas.worldBounds? k = some rect ∨ q.editor.canvas.worldBounds? k = some rect)) ∧
    (∀ err, q.answer = .refused err → damages q.redraws = []) := by
  intro q
  have haccounts : q.Accounts e := perform_accounts e hrecorded
  refine ⟨fun k l hk hl => ?_, fun k hk => ?_, fun err hrefused => ?_⟩
  · rcases haccounts with hkeeps | ⟨changed, hrepaints⟩
    · exact absurd (by rw [hkeeps.canvas]) hk
    · have honly : ∀ j, q.editor.canvas.get? j ≠ e.canvas.get? j → j = changed := fun j hj =>
        Classical.byContradiction fun hne => hj (hrepaints.others j hne)
      rw [honly k hk, honly l hl]
  · rcases haccounts with hkeeps | ⟨changed, hrepaints⟩
    · exact absurd (by rw [hkeeps.canvas]) hk
    · obtain rfl : k = changed :=
        Classical.byContradiction fun hne => hk (hrepaints.others k hne)
      exact hrepaints.exists_damage hk
  · have hplaces : r.places = false := by
      cases r with
      | load | add => cases hrefused
      | _ => rfl
    have hanswer : q.answer.reports = false := by
      rw [hrefused]
      rfl
    exact damages_eq_nil ((performed e r).quiet hplaces hrecorded hanswer)

theorem damage_covers_change_undone :
    let d : Drawable Float (Shape Float) := ⟨.rect ⟨0, 0, 1, 1⟩, .identity, 0, default⟩
    let e : Editor Float (Shape Float) := (ofSettings default).run [.add d, .delete ⟨0⟩]
    let q := e.perform .undo
    (Request.undo : Request Float (Shape Float)).bypasses = false ∧
      q.editor.canvas.get? ⟨0⟩ ≠ e.canvas.get? ⟨0⟩ ∧
      ∃ damage, damages q.redraws = [damage] ∧ ∀ rect, rect ∈ damage.rects ↔
        (e.canvas.worldBounds? ⟨0⟩ = some rect ∨
          q.editor.canvas.worldBounds? ⟨0⟩ = some rect) := by
  intro d e q
  have hchanged : q.editor.canvas.get? ⟨0⟩ ≠ e.canvas.get? ⟨0⟩ := by
    have hbefore : e.canvas.get? ⟨0⟩ = none := rfl
    have hafter : q.editor.canvas.get? ⟨0⟩ = some d := rfl
    rw [hbefore, hafter]
    nofun
  exact ⟨rfl, hchanged, (damage_covers_change e .undo rfl).2.1 ⟨0⟩ hchanged⟩

end repaints

end VectorEditor.Editor
