import VectorEditor.Proofs.Timeline

/-!
# Histories of lawful commands

A command keeps its promise if what it has done can be taken back and done again, and if it leaves
its target alone where it fails (`LawfulCommand`). Such a command may still come back changed from
every step, so a history of them is not known by what was put into it. `Timeline.follow` is the
timeline of the target in the course of a session, in which nothing but targets occurs, and
`History.run_simulates_timeline` says that history and target cannot be told apart from it.
-/

namespace VectorEditor

variable {C S E : Type} [Command C S E]

/-- Commands that can be taken back and made again once they have been made, and that leave their
target as it is if they fail. -/
class LawfulCommand (C S : Type) {E : Type} [Command C S E] : Prop where
  exchange : ∀ {c c' : C} {s s' : S}, Command.apply c s = ⟨c', s', none⟩ →
    ∃ c'', Exchange c' s' c'' s
  unchanged : ∀ {c c' : C} {s s' : S} {err : E}, Command.apply c s = ⟨c', s', some err⟩ → s' = s

namespace History

/-- Whether the operation leaves it to the history to apply what it records. -/
def Request.applies : Request C → Bool
  | .push _ => false
  | _ => true

/-- The history and its target after a session. -/
def run (h : History C) (s : S) : List (Request C) → History C × S
  | [] => (h, s)
  | r :: rs => run (h.perform s r).history (h.perform s r).target rs

end History

namespace Timeline

/-- The timeline after an operation on the history. A command that can be applied to the present
gives the next one. What is recorded without being applied has no place in a timeline. -/
def advance (limit : Option Nat) (z : Timeline S) : History.Request C → Timeline S
  | .execute c =>
    match Command.apply c z.present with
    | ⟨_, s, none⟩ => z.record limit s
    | ⟨_, _, some _⟩ => z
  | .undo => z.back
  | .redo => z.forward
  | .clear => .start z.present
  | .push _ => z

/-- The timeline after a session. -/
def follow (limit : Option Nat) (z : Timeline S) (rs : List (History.Request C)) : Timeline S :=
  rs.foldl (advance limit) z

end Timeline

namespace History

/-! ## One operation -/

theorem limit_perform (h : History C) (s : S) (r : Request C) :
    (h.perform s r).history.limit = h.limit := by
  cases r with
  | push c => rfl
  | execute c =>
    simp only [perform, execute]
    split <;> rfl
  | undo =>
    simp only [perform, undo]
    split
    · rfl
    · split <;> rfl
  | redo =>
    simp only [perform, redo]
    split
    · rfl
    · split <;> rfl
  | clear =>
    simp only [perform, clear]
    split <;> rfl

theorem undo_of_nil {h : History C} (hdone : h.done = []) (s : S) :
    h.undo s = ⟨.ok false, h, s, []⟩ := by
  simp only [undo, hdone]

theorem redo_of_nil {h : History C} (hundone : h.undone = []) (s : S) :
    h.redo s = ⟨.ok false, h, s, []⟩ := by
  simp only [redo, hundone]

namespace Tracks

variable {h : History C} {s : S} {z : Timeline S}

theorem past_eq_nil_iff (ht : Tracks h s z) : z.past = [] ↔ h.done = [] := by
  rw [← List.length_eq_zero_iff, ht.past.length_eq, List.length_eq_zero_iff]

theorem future_eq_nil_iff (ht : Tracks h s z) : z.future = [] ↔ h.undone = [] := by
  rw [← List.length_eq_zero_iff, ht.future.length_eq, List.length_eq_zero_iff]

theorem clear (ht : Tracks h s z) : Tracks h.clear s (.start z.present) := by
  have hpresent : (Timeline.start z.present).present = s := ht.present
  rw [History.clear]
  split
  · rename_i hempty
    obtain ⟨hdone, hundone⟩ : h.done = [] ∧ h.undone = [] := by simpa using hempty
    refine ⟨?_, hpresent, ?_⟩
    · rw [hdone]
      exact .nil s
    · rw [hundone]
      exact .nil s
  · exact ⟨.nil s, hpresent, .nil s⟩

variable [LawfulCommand C S]

theorem execute_cases (ht : Tracks h s z) (limit : Option Nat) (c : C) :
    (∃ c' c'' s', h.execute c s = ⟨.ok (), h.push c', s', [(h.push c').recordedNotice]⟩ ∧
      Exchange c' s' c'' s ∧ z.advance limit (.execute c) = z.record limit s') ∨
    ∃ err, h.execute c s = ⟨.error err, h, s, [.applyFailed]⟩ ∧
      z.advance limit (.execute c) = z := by
  rcases happly : Command.apply c s with ⟨c', s', failure⟩
  have hpresent : Command.apply c z.present = ⟨c', s', failure⟩ := by rw [ht.present, happly]
  cases failure with
  | none =>
    obtain ⟨c'', hexchange⟩ := LawfulCommand.exchange happly
    refine .inl ⟨c', c'', s', ?_, hexchange, ?_⟩
    · simp only [History.execute, happly]
    · simp only [Timeline.advance, hpresent]
  | some err =>
    obtain rfl := LawfulCommand.unchanged happly
    refine .inr ⟨err, ?_, ?_⟩
    · simp only [History.execute, happly]
    · simp only [Timeline.advance, hpresent]

theorem execute (ht : Tracks h s z) (c : C) :
    Tracks (h.execute c s).history (h.execute c s).target (z.advance h.limit (.execute c)) := by
  rcases ht.execute_cases h.limit c with
    ⟨c', c'', s', hexecute, hexchange, hadvance⟩ | ⟨err, hexecute, hadvance⟩
  · rw [hexecute, hadvance]
    exact ht.push hexchange
  · rw [hexecute, hadvance]
    exact ht

theorem perform (ht : Tracks h s z) {r : Request C} (hr : r.applies = true) :
    Tracks (h.perform s r).history (h.perform s r).target (z.advance h.limit r) := by
  cases r with
  | push c => cases hr
  | execute c => exact ht.execute c
  | undo => exact ht.undo.2
  | redo => exact ht.redo.2
  | clear => exact ht.clear

end Tracks

/-! ## Sessions -/

variable [LawfulCommand C S]

theorem run_tracks (rs : List (Request C)) {h : History C} {s : S} {z : Timeline S}
    (ht : Tracks h s z) (hrs : ∀ r ∈ rs, r.applies = true) :
    Tracks (h.run s rs).1 (h.run s rs).2 (z.follow h.limit rs) := by
  induction rs generalizing h s z with
  | nil => exact ht
  | cons r rs ih =>
    obtain ⟨hr, hrs⟩ := List.forall_mem_cons.mp hrs
    have hrest := ih (ht.perform hr) hrs
    rw [limit_perform] at hrest
    exact hrest

/-- **A history of lawful commands is a timeline of its target** (`Timeline.follow`). -/
theorem run_simulates_timeline (limit : Option Nat) (s : S) (rs : List (Request C))
    (hrs : ∀ r ∈ rs, r.applies = true) :
    let h := ((empty limit : History C).run s rs).1
    let t := ((empty limit : History C).run s rs).2
    let z := (Timeline.start s).follow limit rs
    (t = z.present ∧ h.done.length = z.past.length ∧ h.undone.length = z.future.length) ∧
    ((h.undo t).answer = .ok (!z.past.isEmpty) ∧ (h.undo t).target = z.back.present ∧
      (z.past = [] → (h.undo t).history = h ∧ (h.undo t).target = t)) ∧
    ((h.redo t).answer = .ok (!z.future.isEmpty) ∧ (h.redo t).target = z.forward.present ∧
      (z.future = [] → (h.redo t).history = h ∧ (h.redo t).target = t)) ∧
    ∀ c, ((h.execute c t).answer.isOk = true →
        z.advance limit (.execute c) = z.record limit (h.execute c t).target) ∧
      ((h.execute c t).answer.isOk = false →
        z.advance limit (.execute c) = z ∧ (h.execute c t).history = h ∧
          (h.execute c t).target = t) := by
  intro h t z
  have ht : Tracks h t z := run_tracks rs (.empty limit s) hrs
  refine ⟨⟨ht.present.symm, ht.past.length_eq.symm, ht.future.length_eq.symm⟩,
    ⟨ht.undo.1, ht.undo.2.present.symm, fun hpast => ?_⟩,
    ⟨ht.redo.1, ht.redo.2.present.symm, fun hfuture => ?_⟩, fun c => ?_⟩
  · rw [undo_of_nil (ht.past_eq_nil_iff.mp hpast)]
    exact ⟨rfl, rfl⟩
  · rw [redo_of_nil (ht.future_eq_nil_iff.mp hfuture)]
    exact ⟨rfl, rfl⟩
  · rcases ht.execute_cases limit c with
      ⟨c', c'', t', hexecute, -, hadvance⟩ | ⟨err, hexecute, hadvance⟩
    · rw [hexecute, hadvance]
      exact ⟨fun _ => rfl, nofun⟩
    · rw [hexecute, hadvance]
      exact ⟨nofun, fun _ => ⟨rfl, rfl, rfl⟩⟩

/-- The replacement of the target by a value. What was there before is held afterwards, so a
replacement is a different one after every step. It fails if it would change nothing. -/
structure Replacement (S : Type) where
  held : S

instance {S : Type} [DecidableEq S] : Command (Replacement S) S Unit where
  apply c s := if c.held = s then ⟨c, s, some ()⟩ else ⟨⟨s⟩, c.held, none⟩
  revert c s := ⟨⟨s⟩, c.held, none⟩

instance {S : Type} [DecidableEq S] : LawfulCommand (Replacement S) S where
  exchange := by
    intro c c' s s' happly
    simp only [Command.apply] at happly
    split at happly
    · cases happly
    · rename_i hne
      cases happly
      exact ⟨c, rfl, if_neg hne⟩
  unchanged := by
    intro c c' s s' err happly
    simp only [Command.apply] at happly
    split at happly
    · cases happly
      rfl
    · cases happly

theorem run_simulates_timeline_replacing :
    let rs : List (Request (Replacement Nat)) :=
      [.execute ⟨1⟩, .execute ⟨1⟩, .execute ⟨2⟩, .execute ⟨3⟩, .undo, .undo, .undo, .redo]
    let h := ((empty (some 2)).run 0 rs).1
    let t := ((empty (some 2)).run 0 rs).2
    (∀ r ∈ rs, r.applies = true) ∧ t = 2 ∧ h.done.length = 1 ∧ h.undone.length = 1 ∧
      (h.undo t).answer = .ok true ∧ (h.undo t).target = 1 ∧
      (h.redo t).answer = .ok true ∧ (h.redo t).target = 3 := by
  intro rs h t
  have hrs : ∀ r ∈ rs, r.applies = true := by simp [rs, Request.applies]
  obtain ⟨⟨hpresent, hdone, hundone⟩, ⟨hundo, hback, -⟩, ⟨hredo, hforward, -⟩, -⟩ :=
    run_simulates_timeline (some 2) 0 rs hrs
  exact ⟨hrs, hpresent, hdone, hundone, hundo, hback, hredo, hforward⟩

end History

end VectorEditor
