import VectorEditor.Editor.Request
import VectorEditor.Proofs.Change

/-!
# What requests do to the drawing

Most requests leave the drawing and its history alone. Those that change an object ask for one
change (`Editor.asked`), which is either made and recorded or has no effect at all; the rest place
an object, replace an item without a record, undo or redo. `Editor.performed` says so for every
request and every state of the editor, and all that is known of the drawing in the course of a
session follows from it.
-/

namespace VectorEditor.Editor

variable {α T R R' : Type}

/-- Whether an answer reports that something was done. -/
def Answer.reports : Answer α → Bool
  | .refused _ => false
  | .done b => b
  | .transformed k? => k?.isSome
  | _ => true

namespace Request

/-- Whether the request works on the history: it changes an object, undoes or redoes. -/
def revises : Request α T → Bool
  | .delete _ | .edit _ _ | .raise _ | .lower _ | .applyEntry _ | .release _ | .undo | .redo => true
  | _ => false

/-- Whether the request places an object. -/
def places : Request α T → Bool
  | .load _ | .add _ => true
  | _ => false

/-- Whether the request changes an object without a record. -/
def bypasses : Request α T → Bool
  | .replaceItem _ _ => true
  | _ => false

theorem places_of_revises {r : Request α T} (h : r.revises = true) : r.places = false := by
  cases r with
  | load d => cases h
  | add d => cases h
  | _ => rfl

end Request

/-- The reply leaves the drawing and its history as they are. -/
structure Reply.Keeps (e : Editor α T) (q : Reply α T R) : Prop where
  canvas : q.editor.canvas = e.canvas
  history : q.editor.history = e.history
  quiet : ∀ d, .committed d ∉ q.redraws

theorem Reply.Keeps.refl (e : Editor α T) (answer : R) (log : List (Notice α)) :
    Reply.Keeps e { answer, editor := e, log } :=
  ⟨rfl, rfl, fun _ h => by cases h⟩

theorem Reply.Keeps.map {e : Editor α T} {q : Reply α T R} (h : q.Keeps e) (f : R → R') :
    (q.map f).Keeps e :=
  ⟨h.canvas, h.history, h.quiet⟩

theorem Reply.Keeps.bind {e : Editor α T} {q : Reply α T R} (h : q.Keeps e)
    {next : R → Editor α T → Reply α T R'} (hnext : (next q.answer q.editor).Keeps q.editor) :
    (q.bind next).Keeps e := by
  refine ⟨hnext.canvas.trans h.canvas, hnext.history.trans h.history, fun d hd => ?_⟩
  rcases List.mem_append.mp hd with hd | hd
  · exact h.quiet d hd
  · exact hnext.quiet d hd

section keeps

variable [Scalar α]

omit [Scalar α] in
theorem track_keeps (e : Editor α T) (answer : R) (ix : Interaction α Key) :
    (e.track answer ix).Keeps e := by
  refine ⟨rfl, rfl, fun d hd => ?_⟩
  simp only [track] at hd
  split at hd
  · cases hd
  · cases List.mem_singleton.mp hd

theorem deselectKey_keeps (e : Editor α T) (k : Key) : (e.deselectKey k).Keeps e := by
  rw [deselectKey]
  split
  · exact track_keeps _ _ _
  · exact .refl e () []

theorem setViewSize_keeps (e : Editor α T) (size : Size α) : (e.setViewSize size).Keeps e := by
  rw [setViewSize]
  split
  · exact .refl e () []
  · exact ⟨rfl, rfl, fun d hd => by cases List.mem_singleton.mp hd⟩

theorem press_keeps [Region α T] (e : Editor α T) (p : Point α) : (e.press p).Keeps e := by
  simp only [press]
  generalize e.interaction.press p _ = outcome
  refine (track_keeps _ _ _).bind ⟨rfl, rfl, fun d hd => ?_⟩
  simp only at hd
  split at hd
  · split at hd
    · cases List.mem_singleton.mp hd
    · cases hd
  · cases hd

theorem move_keeps (e : Editor α T) (p : Point α) : (e.move p).Keeps e := by
  refine ⟨rfl, rfl, fun d hd => ?_⟩
  simp only [move] at hd
  split at hd
  · split at hd
    · cases List.mem_singleton.mp hd
    · cases hd
  · cases List.mem_singleton.mp hd
  · cases hd

end keeps

/-! ## Attempts at a change -/

variable [Scalar α] [Region α T]

/-- The transform of an object as a change: none for the identity and without an inverse. -/
def transforming (k : Key) (t : Affine α) (frame : Frame) : Option (Change α T) :=
  if t.isIdentity then none
  else (Transformation.new? k t frame).toOption.map .transformation

/-- The move of an object towards an end of the painting order, unless it is there already. -/
def restacking? (e : Editor α T) (s : End) (k : Key) : Option (Change α T) := do
  let d ← e.canvas.get? k
  let n ← s.outermost? (e.otherOrders k)
  if s.Beyond d.order n then none else some (.reorder k d.order (s.next n))

/-- The change that a request asks for, if it asks for one. -/
def asked (e : Editor α T) : Request α T → Option (Change α T)
  | .delete k => some (.deletion k none)
  | .edit k item => some (.edit k item)
  | .raise k => e.restacking? .top k
  | .lower k => e.restacking? .bottom k
  | .applyEntry entry => do
    let k ← e.interaction.selected
    let t ← entry.resolve.toOption
    transforming k t e.interaction.frame
  | .release p => do
    let c ← (e.interaction.release p).1
    transforming c.key c.transform c.frame
  | _ => none

/-- An attempt at the change `ask`: it is made and recorded, or all stays as it is. Which of the
two, the answer tells. -/
inductive Attempt (e : Editor α T) (ask : Option (Change α T)) (ok : R → Bool)
    (q : Reply α T R) : Prop
  | kept (hkeeps : q.Keeps e) (hanswer : ok q.answer = false)
  | made {ch ch' : Change α T} (hask : ask = some ch)
    (happly : ch.apply e.canvas = ⟨ch', q.editor.canvas, none⟩)
    (hhistory : q.editor.history = e.history.push ch') (hanswer : ok q.answer = true)

namespace Attempt

variable {e : Editor α T} {ask : Option (Change α T)}

theorem map {ok : R → Bool} {ok' : R' → Bool} {q : Reply α T R} (h : Attempt e ask ok q)
    {f : R → R'} (hf : ∀ r, ok' (f r) = ok r) : Attempt e ask ok' (q.map f) := by
  cases h with
  | kept hkeeps hanswer => exact .kept (hkeeps.map f) ((hf _).trans hanswer)
  | made hask happly hhistory hanswer =>
    exact .made hask happly hhistory ((hf _).trans hanswer)

theorem after {ok : R' → Bool} {q : Reply α T R} (hkeeps : q.Keeps e)
    {next : R → Editor α T → Reply α T R'}
    (h : Attempt q.editor ask ok (next q.answer q.editor)) : Attempt e ask ok (q.bind next) := by
  cases h with
  | kept hnext hanswer => exact .kept (hkeeps.bind hnext) hanswer
  | made hask happly hhistory hanswer =>
    rw [hkeeps.canvas] at happly
    rw [hkeeps.history] at hhistory
    exact .made hask happly hhistory hanswer

theorem reword {ok : R → Bool} {ok' : R' → Bool} {q : Reply α T R} (h : Attempt e ask ok q)
    {next : R → Editor α T → Reply α T R'} (hkeeps : ∀ r e, (next r e).Keeps e)
    (hok : ∀ r e, ok' (next r e).answer = ok r) : Attempt e ask ok' (q.bind next) := by
  cases h with
  | kept hkept hanswer => exact .kept (hkept.bind (hkeeps _ _)) ((hok _ _).trans hanswer)
  | made hask happly hhistory hanswer =>
    rw [← (hkeeps q.answer q.editor).canvas] at happly
    rw [← (hkeeps q.answer q.editor).history] at hhistory
    exact .made hask happly hhistory ((hok _ _).trans hanswer)

end Attempt

theorem commit_of_applies {e : Editor α T} {ch ch' : Change α T} {s s' : Option (Drawable α T)}
    (hslot : e.canvas.slot? ch.key = some s) (happlies : Change.Applies ch s ch' s')
    (withBefore : Bool) :
    e.commit ch withBefore =
      { answer := .ok ()
        editor := { e with history := e.history.push ch', canvas := e.canvas.put ch.key s' }
        redraws := damage (if withBefore then e.canvas.worldBounds? ch.key else none)
          ((e.canvas.put ch.key s').worldBounds? ch.key)
        log := [.history (e.history.push ch').recordedNotice] } := by
  have hexecute : e.history.execute ch e.canvas =
      ⟨.ok (), e.history.push ch', e.canvas.put ch.key s',
        [(e.history.push ch').recordedNotice]⟩ := by
    simp only [History.execute, Command.apply, Change.apply_of_applies hslot happlies]
  simp only [commit, execute, hexecute]
  rfl

/-- Committing a change either fails and does nothing, or changes the slot of its object, records
the change and has the object painted again. -/
theorem commit_cases (e : Editor α T) (ch : Change α T) (withBefore : Bool) :
    (∃ err, ch.apply e.canvas = ch.refuse e.canvas err ∧
      e.commit ch withBefore =
        { answer := .error (.canvas err), editor := e, log := [.history .applyFailed] }) ∨
    ∃ s ch' s', e.canvas.slot? ch.key = some s ∧ Change.Applies ch s ch' s' ∧
      e.commit ch withBefore =
        { answer := .ok ()
          editor :=
            { e with history := e.history.push ch', canvas := e.canvas.put ch.key s' }
          redraws := damage (if withBefore then e.canvas.worldBounds? ch.key else none)
            ((e.canvas.put ch.key s').worldBounds? ch.key)
          log := [.history (e.history.push ch').recordedNotice] } := by
  rcases ch.apply_cases e.canvas with ⟨err, hrefused⟩ | ⟨s, ch', s', hslot, happlies⟩
  · refine .inl ⟨err, hrefused, ?_⟩
    have hexecute : e.history.execute ch e.canvas =
        ⟨.error err, e.history, e.canvas, [.applyFailed]⟩ := by
      simp only [History.execute, Command.apply, hrefused, Change.refuse]
    simp only [commit, execute, hexecute]
    rfl
  · exact .inr ⟨s, ch', s', hslot, happlies, commit_of_applies hslot happlies withBefore⟩

theorem commit_attempt (e : Editor α T) (ch : Change α T) (withBefore : Bool) :
    Attempt e (some ch) (·.isOk) (e.commit ch withBefore) := by
  rcases e.commit_cases ch withBefore with
    ⟨err, -, hreply⟩ | ⟨s, ch', s', hslot, happlies, hreply⟩
  · rw [hreply]
    exact .kept (.refl e _ _) rfl
  · rw [hreply]
    exact .made rfl (Change.apply_of_applies hslot happlies) rfl rfl

theorem commitTransform_attempt (e : Editor α T) (k : Key) (t : Affine α) (frame : Frame) :
    Attempt e (transforming k t frame)
      (fun answer => (Answer.ofExcept .transformed answer).reports)
      (e.commitTransform k t frame) := by
  rw [commitTransform, transforming]
  split
  · exact .kept (.refl e _ []) rfl
  · split
    · exact .kept (.refl e _ _) rfl
    · rename_i change hnew
      rw [hnew]
      exact (commit_attempt e _ true).map fun r => by cases r <;> rfl

theorem delete_attempt (e : Editor α T) (k : Key) :
    Attempt e (e.asked (.delete k)) (·.isOk) (e.delete k) :=
  .after (deselectKey_keeps e k) (commit_attempt _ _ true)

theorem edit_attempt (e : Editor α T) (k : Key) (item : T) :
    Attempt e (e.asked (.edit k item)) (·.isOk) (e.edit k item) :=
  .after (deselectKey_keeps e k) (commit_attempt _ _ true)

theorem restack_attempt (e : Editor α T) (s : End) (k : Key) :
    Attempt e (e.restacking? s k) (fun answer => (Answer.ofExcept .done answer).reports)
      (e.restack s k) := by
  rw [restack, restacking?]
  cases e.canvas.get? k with
  | none => exact .kept (.refl e _ []) rfl
  | some d =>
    cases s.outermost? (e.otherOrders k) with
    | none => exact .kept (.refl e _ []) rfl
    | some n =>
      simp only [Option.bind_eq_bind, Option.bind_some]
      split
      · exact .kept (.refl e _ []) rfl
      · exact (commit_attempt e _ false).map fun r => by cases r <;> rfl

theorem restack_cases (e : Editor α T) (s : End) (k : Key) :
    (∃ answer, e.restack s k = { answer, editor := e }) ∨
      ∃ old new, e.restack s k = e.reorder k old new := by
  rw [restack]
  split
  · exact .inl ⟨_, rfl⟩
  · split
    · exact .inl ⟨_, rfl⟩
    · split
      · exact .inl ⟨_, rfl⟩
      · exact .inr ⟨_, _, rfl⟩

theorem applyEntry_attempt (e : Editor α T) (entry : Entry α) :
    Attempt e (e.asked (.applyEntry entry))
      (fun answer => (Answer.ofExcept .transformed answer).reports) (e.applyEntry entry) := by
  rw [applyEntry, asked]
  cases e.interaction.selected with
  | none => exact .kept (.refl e _ []) rfl
  | some k =>
    refine .after (track_keeps _ _ _) ?_
    cases entry.resolve with
    | error err => exact .kept (.refl _ _ []) rfl
    | ok t => exact commitTransform_attempt _ _ _ _

theorem release_attempt (e : Editor α T) (p : Point α) :
    Attempt e (e.asked (.release p))
      (fun answer => (Answer.ofExcept .transformed answer).reports) (e.release p) := by
  simp only [release, asked]
  refine .after (track_keeps _ _ _) ?_
  simp only [track]
  cases (e.interaction.release p).1 with
  | none => exact .kept (.refl _ _ []) rfl
  | some c =>
    refine (commitTransform_attempt _ _ _ _).reword (fun answer e => ?_) (fun answer e => ?_)
    · split
      · exact .refl e _ _
      · exact .refl e _ []
    · split
      · rfl
      · rfl

/-! ## All requests -/

/-- What the request `r` has done to the drawing and its history. -/
inductive Performed (e : Editor α T) (q : Reply α T (Answer α)) : Request α T → Prop
  | kept {r : Request α T} (hkeeps : q.Keeps e) (hplaces : r.places = false)
    (hanswer : r.revises = true → q.answer.reports = false) : Performed e q r
  | made {r : Request α T} {ch ch' : Change α T} (hrevises : r.revises = true)
    (hask : e.asked r = some ch) (happly : ch.apply e.canvas = ⟨ch', q.editor.canvas, none⟩)
    (hhistory : q.editor.history = e.history.push ch') (hanswer : q.answer.reports = true) :
    Performed e q r
  | undone {ch ch' : Change α T} {rest : List (Change α T)} (hdone : e.history.done = ch :: rest)
    (hrevert : ch.revert e.canvas = ⟨ch', q.editor.canvas, none⟩)
    (hhistory : q.editor.history =
      { e.history with
        done := rest, undone := ch' :: e.history.undone, revision := e.history.revision + 1 })
    (hanswer : q.answer = .done true) : Performed e q .undo
  | redone {ch ch' : Change α T} {rest : List (Change α T)}
    (hundone : e.history.undone = ch :: rest)
    (happly : ch.apply e.canvas = ⟨ch', q.editor.canvas, none⟩)
    (hhistory : q.editor.history =
      { e.history with
        done := ch' :: e.history.done, undone := rest, revision := e.history.revision + 1 })
    (hanswer : q.answer = .done true) : Performed e q .redo
  | loaded {d : Drawable α T} (hcanvas : q.editor.canvas = e.canvas.extend (some d))
    (hhistory : q.editor.history = e.history) : Performed e q (.load d)
  | added {d : Drawable α T} (hcanvas : q.editor.canvas = e.canvas.extend (some d))
    (hhistory : q.editor.history = e.history.push (.creation e.canvas.nextKey none)) :
    Performed e q (.add d)
  | replaced {k : Key} {item : T} {d : Drawable α T} (hslot : e.canvas.slot? k = some (some d))
    (hcanvas : q.editor.canvas = e.canvas.put k (some { d with item }))
    (hhistory : q.editor.history = e.history) : Performed e q (.replaceItem k item)

theorem Attempt.performed {e : Editor α T} {r : Request α T} {q : Reply α T (Answer α)}
    (h : Attempt e (e.asked r) Answer.reports q) (hrevises : r.revises = true) :
    Performed e q r := by
  cases h with
  | kept hkeeps hanswer => exact .kept hkeeps (Request.places_of_revises hrevises) fun _ => hanswer
  | made hask happly hhistory hanswer => exact .made hrevises hask happly hhistory hanswer

theorem canvas_load (e : Editor α T) (d : Drawable α T) :
    (e.load d).editor.canvas = e.canvas.extend (some d) :=
  congrArg Prod.snd (e.canvas.insert_eq d)

theorem canvas_add (e : Editor α T) (d : Drawable α T) :
    (e.add d).editor.canvas = e.canvas.extend (some d) :=
  congrArg Prod.snd (e.canvas.insert_eq d)

theorem replaceItem_performed (e : Editor α T) (k : Key) (item : T) :
    Performed e (e.perform (.replaceItem k item)) (.replaceItem k item) := by
  cases hd : e.canvas.get? k with
  | none =>
    have hreply : e.replaceItem k item = { answer := false, editor := e } := by
      simp only [replaceItem, Canvas.setItem, Canvas.update_of_none hd, Except.map]
    simp only [perform, hreply]
    exact .kept (.map (.refl e _ []) _) rfl (by simp [Request.revises])
  | some d =>
    have hreply : e.replaceItem k item =
        { answer := true
          editor := { e with canvas := e.canvas.put k (some { d with item }) } } := by
      simp only [replaceItem, Canvas.setItem, Canvas.update_of_some hd, Except.map]
    simp only [perform, hreply]
    exact .replaced (Canvas.get?_eq_some_iff.mp hd) rfl rfl

/-! ### Steps through the history -/

namespace Way

/-- What a step does with a change. -/
def carry : Way → Change α T → Canvas α T → Change.Result α T
  | .back => Change.revert
  | .forth => Change.apply

/-- The history behind a step over a change that has become `ch`, with `rest` still ahead. -/
def passed (h : History (Change α T)) (ch : Change α T) (rest : List (Change α T)) :
    Way → History (Change α T)
  | .back => { h with done := rest, undone := ch :: h.undone, revision := h.revision + 1 }
  | .forth => { h with done := ch :: h.done, undone := rest, revision := h.revision + 1 }

def request : Way → Request α T
  | .back => .undo
  | .forth => .redo

variable {w : Way} {h : History (Change α T)} {ch : Change α T} {rest : List (Change α T)}

theorem step_of_nil (hahead : w.ahead h = []) (c : Canvas α T) :
    w.step h c = ⟨.ok false, h, c, []⟩ := by
  cases w with
  | back =>
    have hdone : h.done = [] := hahead
    simp only [step, History.undo, hdone]
  | forth =>
    have hundone : h.undone = [] := hahead
    simp only [step, History.redo, hundone]

theorem carry_cases (w : Way) (ch : Change α T) (c : Canvas α T) :
    (∃ err, w.carry ch c = ch.refuse c err) ∨
      ∃ ch' s', w.carry ch c = ⟨ch', c.put ch.key s', none⟩ := by
  cases w with
  | back =>
    rcases ch.revert_cases c with hrefused | ⟨s, ch', s', hslot, hreverts⟩
    · exact .inl hrefused
    · exact .inr ⟨ch', s', Change.revert_of_reverts hslot hreverts⟩
  | forth =>
    rcases ch.apply_cases c with hrefused | ⟨s, ch', s', hslot, happlies⟩
    · exact .inl hrefused
    · exact .inr ⟨ch', s', Change.apply_of_applies hslot happlies⟩

theorem step_of_refused (hahead : w.ahead h = ch :: rest) {c : Canvas α T} {err : Canvas.Error}
    (hcarry : w.carry ch c = ch.refuse c err) :
    ∃ log, w.step h c = ⟨.error err, h, c, log⟩ := by
  cases w with
  | back =>
    have hdone : h.done = ch :: rest := hahead
    have hrevert : ch.revert c = ⟨ch, c, some err⟩ := hcarry
    refine ⟨[.undoFailed], ?_⟩
    simp only [step, History.undo, hdone, Command.revert, hrevert]
    rw [← hdone]
  | forth =>
    have hundone : h.undone = ch :: rest := hahead
    have happly : ch.apply c = ⟨ch, c, some err⟩ := hcarry
    refine ⟨[.redoFailed], ?_⟩
    simp only [step, History.redo, hundone, Command.apply, happly]
    rw [← hundone]

theorem step_of_carried (hahead : w.ahead h = ch :: rest) {c c' : Canvas α T} {ch' : Change α T}
    (hcarry : w.carry ch c = ⟨ch', c', none⟩) :
    ∃ log, w.step h c = ⟨.ok true, w.passed h ch' rest, c', log⟩ := by
  cases w with
  | back =>
    have hdone : h.done = ch :: rest := hahead
    have hrevert : ch.revert c = ⟨ch', c', none⟩ := hcarry
    refine ⟨[.undone rest.length (h.undone.length + 1)], ?_⟩
    simp only [step, passed, History.undo, hdone, Command.revert, hrevert]
  | forth =>
    have hundone : h.undone = ch :: rest := hahead
    have happly : ch.apply c = ⟨ch', c', none⟩ := hcarry
    refine ⟨[.redone (h.done.length + 1) rest.length], ?_⟩
    simp only [step, passed, History.redo, hundone, Command.apply, happly]

end Way

/-- A step through the history carries the nearest change out, or does nothing. -/
theorem travel_cases (e : Editor α T) (w : Way) :
    (∃ answer log, (Answer.ofExcept .done answer).reports = false ∧
      e.travel w = e.deselect.bind fun _ e => { answer, editor := e, log }) ∨
    ∃ ch rest ch' s' log, w.ahead e.history = ch :: rest ∧
      w.carry ch e.canvas = ⟨ch', e.canvas.put ch.key s', none⟩ ∧
      e.travel w = e.deselect.bind fun _ e' =>
        { answer := .ok true
          editor :=
            { e' with
              history := w.passed e.history ch' rest, canvas := e.canvas.put ch.key s' }
          redraws := damage (e.canvas.worldBounds? ch.key)
            ((e.canvas.put ch.key s').worldBounds? ch.key)
          log } := by
  cases hahead : w.ahead e.history with
  | nil =>
    refine .inl ⟨.ok false, [], rfl, ?_⟩
    simp only [travel, Reply.bind, deselect, track, hahead]
  | cons ch rest =>
    have hreply : e.travel w = e.deselect.bind fun _ e' =>
        e'.stepHistory ch.key (w.step e.history e.canvas) := by
      simp only [travel, Reply.bind, deselect, track, hahead]
    rcases w.carry_cases ch e.canvas with ⟨err, hrefused⟩ | ⟨ch', s', hcarry⟩
    · obtain ⟨log, hstep⟩ := Way.step_of_refused hahead hrefused
      exact .inl ⟨.error (.canvas err), log.map .history, rfl, by rw [hreply, hstep]; rfl⟩
    · obtain ⟨log, hstep⟩ := Way.step_of_carried hahead hcarry
      exact .inr ⟨ch, rest, ch', s', log.map .history, rfl, hcarry, by rw [hreply, hstep]; rfl⟩

theorem travel_performed (e : Editor α T) (w : Way) :
    Performed e ((e.travel w).map (.ofExcept .done)) w.request := by
  have hdeselect := track_keeps e () e.interaction.cancel
  rcases e.travel_cases w with ⟨answer, log, hanswer, hreply⟩ |
    ⟨ch, rest, ch', s', log, hahead, hcarry, hreply⟩
  · rw [hreply]
    exact .kept ((hdeselect.bind (.refl _ _ _)).map _) (by cases w <;> rfl) fun _ => hanswer
  · rw [hreply]
    cases w with
    | back => exact .undone hahead hcarry rfl rfl
    | forth => exact .redone hahead hcarry rfl rfl

/-- A step through the history gives up the selection, and then leaves everything alone or changes
one object and has it painted again. -/
def StepsHistory (e : Editor α T) (q : Reply α T (Except (Error α) Bool)) : Prop :=
  (∃ answer log, q = e.deselect.bind fun _ e => { answer, editor := e, log }) ∨
  ∃ k s history log, q = e.deselect.bind fun _ e' =>
    { answer := .ok true
      editor := { e' with history, canvas := e.canvas.put k s }
      redraws := damage (e.canvas.worldBounds? k) ((e.canvas.put k s).worldBounds? k)
      log }

theorem travel_stepsHistory (e : Editor α T) (w : Way) : e.StepsHistory (e.travel w) := by
  rcases e.travel_cases w with ⟨answer, log, -, hreply⟩ | ⟨ch, rest, ch', s', log, -, -, hreply⟩
  · exact .inl ⟨_, _, hreply⟩
  · exact .inr ⟨_, _, _, _, hreply⟩

/-- **What a request does to the drawing and its history**, whatever the state of the editor. -/
theorem performed (e : Editor α T) (r : Request α T) : Performed e (e.perform r) r := by
  cases r with
  | load d => exact .loaded (canvas_load e d) rfl
  | add d => exact .added (canvas_add e d) rfl
  | replaceItem k item => exact replaceItem_performed e k item
  | undo => exact travel_performed e .back
  | redo => exact travel_performed e .forth
  | delete k => exact ((delete_attempt e k).map fun r => by cases r <;> rfl).performed rfl
  | edit k item =>
    exact ((edit_attempt e k item).map fun r => by cases r <;> rfl).performed rfl
  | raise k => exact ((restack_attempt e .top k).map fun _ => rfl).performed rfl
  | lower k => exact ((restack_attempt e .bottom k).map fun _ => rfl).performed rfl
  | applyEntry entry => exact ((applyEntry_attempt e entry).map fun _ => rfl).performed rfl
  | release p => exact ((release_attempt e p).map fun _ => rfl).performed rfl
  | press p => exact .kept ((press_keeps e p).map _) rfl nofun
  | move p => exact .kept ((move_keeps e p).map _) rfl nofun
  | deselect => exact .kept ((track_keeps e () _).map fun _ => Answer.nothing) rfl nofun
  | setMode mode => exact .kept ((track_keeps e () _).map fun _ => Answer.nothing) rfl nofun
  | setViewSize size =>
    exact .kept ((setViewSize_keeps e size).map fun _ => Answer.nothing) rfl nofun
  | setLock lock => exact .kept ⟨rfl, rfl, nofun⟩ rfl nofun
  | setAnchorMode anchorMode => exact .kept ⟨rfl, rfl, nofun⟩ rfl nofun
  | setFrame frame => exact .kept ⟨rfl, rfl, nofun⟩ rfl nofun
  | setSnapping snapping => exact .kept ⟨rfl, rfl, nofun⟩ rfl nofun

theorem Performed.keeps {e : Editor α T} {r : Request α T} {q : Reply α T (Answer α)}
    (h : Performed e q r) (hrevises : r.revises = false) (hplaces : r.places = false)
    (hbypasses : r.bypasses = false) : q.Keeps e := by
  cases h with
  | kept hkeeps => exact hkeeps
  | made htrue =>
    rw [hrevises] at htrue
    cases htrue
  | undone | redone => cases hrevises
  | loaded | added => cases hplaces
  | replaced => cases hbypasses

/-- **All or nothing**: a request moves the history on by one record, or does nothing. -/
theorem perform_all_or_nothing (e : Editor α T) (r : Request α T) (hrevises : r.revises = true) :
    let q := e.perform r
    (q.answer.reports = false → q.editor.canvas = e.canvas ∧ q.editor.history = e.history ∧
      ∀ d, .committed d ∉ q.redraws) ∧
    (q.answer.reports = true → q.editor.history.revision = e.history.revision + 1 ∧
      q.editor.history.limit = e.history.limit ∧
      match r with
      | .undo => ∃ ch ch', e.history.done = ch :: q.editor.history.done ∧
          ch.revert e.canvas = ⟨ch', q.editor.canvas, none⟩ ∧
          q.editor.history.undone = ch' :: e.history.undone
      | .redo => ∃ ch ch', e.history.undone = ch :: q.editor.history.undone ∧
          ch.apply e.canvas = ⟨ch', q.editor.canvas, none⟩ ∧
          q.editor.history.done = ch' :: e.history.done
      | _ => ∃ ch ch', e.asked r = some ch ∧
          ch.apply e.canvas = ⟨ch', q.editor.canvas, none⟩ ∧
          q.editor.history.done = e.history.keep (ch' :: e.history.done) ∧
          q.editor.history.undone = []) := by
  intro q
  have hperformed : Performed e q r := performed e r
  clear_value q
  cases hperformed with
  | kept hkeeps _ hanswer =>
    refine ⟨fun _ => ⟨hkeeps.canvas, hkeeps.history, hkeeps.quiet⟩, fun hreports => ?_⟩
    rw [hanswer hrevises] at hreports
    cases hreports
  | made _ hask happly hhistory hanswer =>
    refine ⟨fun hreports => ?_, fun _ => ?_⟩
    · rw [hanswer] at hreports
      cases hreports
    · rw [hhistory]
      refine ⟨rfl, rfl, ?_⟩
      cases r with
      | undo => cases hask
      | redo => cases hask
      | _ => exact ⟨_, _, hask, happly, rfl, rfl⟩
  | undone hdone hrevert hhistory hanswer =>
    refine ⟨fun hreports => ?_, fun _ => ?_⟩
    · rw [hanswer] at hreports
      cases hreports
    · rw [hhistory]
      exact ⟨rfl, rfl, _, _, hdone, hrevert, rfl⟩
  | redone hundone happly hhistory hanswer =>
    refine ⟨fun hreports => ?_, fun _ => ?_⟩
    · rw [hanswer] at hreports
      cases hreports
    · rw [hhistory]
      exact ⟨rfl, rfl, _, _, hundone, happly, rfl⟩
  | loaded => cases hrevises
  | added => cases hrevises
  | replaced => cases hrevises

theorem perform_all_or_nothing_delete :
    let d : Drawable Float (Shape Float) := ⟨.rect ⟨0, 0, 1, 1⟩, .identity, 0, default⟩
    let e : Editor Float (Shape Float) := (ofSettings default).run [.add d]
    let r : Request Float (Shape Float) := .delete ⟨0⟩
    r.revises = true ∧ (e.perform r).answer.reports = true ∧
      (e.perform r).editor.history.revision = e.history.revision + 1 ∧
      (e.perform r).editor.history.undone = [] := by
  intro d e r
  have hreports : (e.perform r).answer.reports = true := by rfl
  obtain ⟨hrevision, -, ch, ch', -, -, -, hundone⟩ :=
    (perform_all_or_nothing e r rfl).2 hreports
  exact ⟨rfl, hreports, hrevision, hundone⟩

/-! ## Undo and redo -/

theorem travel_eq (e : Editor α T) (w : Way) :
    let o := w.step e.history e.canvas
    (e.travel w).answer = o.answer.mapError .canvas ∧ (e.travel w).editor.history = o.history ∧
      (e.travel w).editor.canvas = o.target := by
  cases hahead : w.ahead e.history with
  | nil =>
    simp only [travel, Reply.bind, deselect, track, Way.step_of_nil hahead, hahead, and_self,
      and_true]
    rfl
  | cons ch rest =>
    simp only [travel, Reply.bind, deselect, track, hahead, stepHistory, and_self, and_true]
    cases (w.step e.history e.canvas).answer with
    | ok b => rfl
    | error err => rfl

theorem undo_eq (e : Editor α T) :
    let o := e.history.undo e.canvas
    e.undo.answer = o.answer.mapError .canvas ∧ e.undo.editor.history = o.history ∧
      e.undo.editor.canvas = o.target :=
  travel_eq e .back

theorem redo_eq (e : Editor α T) :
    let o := e.history.redo e.canvas
    e.redo.answer = o.answer.mapError .canvas ∧ e.redo.editor.history = o.history ∧
      e.redo.editor.canvas = o.target :=
  travel_eq e .forth

/-! ## New changes -/

omit [Region α T] in
theorem transforming_eq_some {k : Key} {t : Affine α} {frame : Frame} {ch : Change α T}
    (h : transforming k t frame = some ch) :
    ∃ inverse, t.inverse? = .ok inverse ∧
      ch = .transformation { key := k, transform := t, inverse, frame, committed := none } := by
  rw [transforming] at h
  split at h
  · cases h
  · rw [Transformation.new?] at h
    cases hinverse : t.inverse? with
    | error err =>
      rw [hinverse] at h
      cases h
    | ok inverse =>
      rw [hinverse] at h
      cases h
      exact ⟨inverse, rfl, rfl⟩

omit [Region α T] in
theorem transforming_new {k : Key} {t : Affine α} {frame : Frame} {ch : Change α T}
    (h : transforming k t frame = some ch) (c : Canvas α T) : ch.New c := by
  obtain ⟨inverse, hinverse, rfl⟩ := transforming_eq_some h
  exact ⟨hinverse, rfl⟩

omit [Scalar α] [Region α T] in
theorem restacking?_eq_some {e : Editor α T} {s : End} {k : Key} {ch : Change α T}
    (h : e.restacking? s k = some ch) :
    ∃ d n, e.canvas.get? k = some d ∧ ch = .reorder k d.order n := by
  simp only [restacking?, Option.bind_eq_bind, Option.bind_eq_some_iff] at h
  obtain ⟨d, hd, n, -, hch⟩ := h
  split at hch
  · cases hch
  · cases hch
    exact ⟨d, _, hd, rfl⟩

omit [Region α T] in
theorem restacking?_new {e : Editor α T} {s : End} {k : Key} {ch : Change α T}
    (h : e.restacking? s k = some ch) : ch.New e.canvas := by
  obtain ⟨d, n, hd, rfl⟩ := restacking?_eq_some h
  exact ⟨d, hd, rfl⟩

omit [Region α T] in
theorem asked_new {e : Editor α T} {r : Request α T} {ch : Change α T}
    (h : e.asked r = some ch) : ch.New e.canvas := by
  cases r with
  | delete k =>
    cases h
    exact rfl
  | edit k item =>
    cases h
    exact trivial
  | raise k => exact restacking?_new h
  | lower k => exact restacking?_new h
  | applyEntry entry =>
    simp only [asked, Option.bind_eq_bind, Option.bind_eq_some_iff] at h
    obtain ⟨k, -, t, -, hch⟩ := h
    exact transforming_new hch _
  | release p =>
    simp only [asked, Option.bind_eq_bind, Option.bind_eq_some_iff] at h
    obtain ⟨c, -, hch⟩ := h
    exact transforming_new hch _
  | _ => cases h

omit [Region α T] in
theorem asked_of_not_revises {e : Editor α T} {r : Request α T} (h : r.revises = false) :
    e.asked r = none := by
  cases r with
  | delete | edit | raise | lower | applyEntry | release => cases h
  | _ => rfl

/-! ## Sessions -/

theorem Performed.size_eq {e : Editor α T} {r : Request α T} {q : Reply α T (Answer α)}
    (h : Performed e q r) :
    q.editor.canvas.slots.size = e.canvas.slots.size + (r.places).toNat := by
  cases h with
  | kept hkeeps hplaces => rw [hkeeps.canvas, hplaces, Bool.toNat_false, Nat.add_zero]
  | made hrevises _ happly _ _ =>
    obtain ⟨s, s', -, -, hcanvas⟩ := Change.apply_eq_ok happly
    rw [hcanvas, Canvas.size_put, Request.places_of_revises hrevises, Bool.toNat_false,
      Nat.add_zero]
  | undone _ hrevert _ _ =>
    obtain ⟨s, s', -, -, hcanvas⟩ := Change.revert_eq_ok hrevert
    rw [hcanvas, Canvas.size_put]
    rfl
  | redone _ happly _ _ =>
    obtain ⟨s, s', -, -, hcanvas⟩ := Change.apply_eq_ok happly
    rw [hcanvas, Canvas.size_put]
    rfl
  | loaded hcanvas _ => rw [hcanvas, Canvas.size_extend]; rfl
  | added hcanvas _ => rw [hcanvas, Canvas.size_extend]; rfl
  | replaced _ hcanvas _ => rw [hcanvas, Canvas.size_put]; rfl

theorem Performed.limit_eq {e : Editor α T} {r : Request α T} {q : Reply α T (Answer α)}
    (h : Performed e q r) : q.editor.history.limit = e.history.limit := by
  cases h with
  | kept hkeeps _ _ => rw [hkeeps.history]
  | made _ _ _ hhistory _ => rw [hhistory, History.push]
  | undone _ _ hhistory _ => rw [hhistory]
  | redone _ _ hhistory _ => rw [hhistory]
  | loaded _ hhistory => rw [hhistory]
  | added _ hhistory => rw [hhistory, History.push]
  | replaced _ _ hhistory => rw [hhistory]

theorem run_induction {P : Editor α T → Prop} (hstep : ∀ e r, P e → P (e.perform r).editor)
    {e : Editor α T} (he : P e) (rs : List (Request α T)) : P (e.run rs) := by
  induction rs generalizing e with
  | nil => exact he
  | cons r rs ih => exact ih (hstep e r he)

theorem run_append (e : Editor α T) (rs rs' : List (Request α T)) :
    e.run (rs ++ rs') = (e.run rs).run rs' :=
  List.foldl_append

theorem run_replicate_load (e : Editor α T) (n : Nat) (d : Drawable α T) :
    e.run (List.replicate n (.load d)) = { e with canvas := e.canvas.extendBy n d } := by
  induction n generalizing e with
  | zero =>
    rw [Canvas.extendBy_zero]
    rfl
  | succ n ih =>
    have hload : (e.perform (.load d)).editor = { e with canvas := e.canvas.extend (some d) } := by
      rw [← canvas_load e d]
      rfl
    show (e.perform (.load d)).editor.run (List.replicate n (.load d)) = _
    rw [hload, ih, Canvas.extendBy_extend]

theorem slots_size_run (e : Editor α T) (rs : List (Request α T)) :
    (e.run rs).canvas.slots.size = e.canvas.slots.size + rs.countP Request.places := by
  induction rs generalizing e with
  | nil => rfl
  | cons r rs ih =>
    have hrest := ih (e.perform r).editor
    rw [(performed e r).size_eq] at hrest
    show ((e.perform r).editor.run rs).canvas.slots.size = _
    rw [hrest, List.countP_cons]
    cases r.places with
    | false => simp
    | true =>
      simp only [Bool.toNat_true, if_true]
      omega

theorem room_of_cons {e : Editor α T} {r : Request α T} {rs : List (Request α T)}
    (h : e.canvas.slots.size + (r :: rs).countP Request.places ≤ UInt32.size) :
    (r.places = true → e.canvas.slots.size < UInt32.size) ∧
      (e.perform r).editor.canvas.slots.size + rs.countP Request.places ≤ UInt32.size := by
  have hsize := (performed e r).size_eq
  rw [List.countP_cons] at h
  cases hplaces : r.places with
  | false =>
    rw [hplaces, Bool.toNat_false] at hsize
    rw [hplaces, if_neg Bool.false_ne_true] at h
    exact ⟨nofun, by omega⟩
  | true =>
    rw [hplaces, Bool.toNat_true] at hsize
    rw [hplaces, if_pos rfl] at h
    exact ⟨fun _ => by omega, by omega⟩

/-- Induction over sessions that do not run out of keys. -/
theorem run_induction_within {P : Editor α T → Prop}
    (hstep : ∀ e r, P e → (r.places = true → e.canvas.slots.size < UInt32.size) →
      P (e.perform r).editor)
    {e : Editor α T} (he : P e) (rs : List (Request α T))
    (hroom : e.canvas.slots.size + rs.countP Request.places ≤ UInt32.size) : P (e.run rs) := by
  induction rs generalizing e with
  | nil => exact he
  | cons r rs ih =>
    obtain ⟨hkey, hrest⟩ := room_of_cons hroom
    exact ih (hstep e r he hkey) hrest

end VectorEditor.Editor
