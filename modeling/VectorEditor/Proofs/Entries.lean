import VectorEditor.Proofs.LawfulHistory

/-!
# The entries of a history

Read in the order of time, the commands done and those undone are one list, with a boundary where
the present is. Undoing and redoing take the entry next to the boundary through its own command and
move the boundary past it if that succeeds (`History.Acts`); no entry is ever lost, doubled or
moved, even if commands fail when they should not and come back changed from it. The revision counts
what has happened to the entries (`History.changeCount`).
-/

namespace VectorEditor.History

variable {C S E : Type}

/-- All records of a history, oldest first. -/
def entries (h : History C) : List C := h.done.reverse ++ h.undone

theorem mem_entries {h : History C} {c : C} : c ∈ h.entries ↔ c ∈ h.done ∨ c ∈ h.undone := by
  rw [entries, List.mem_append, List.mem_reverse]

theorem entries_of_done {h : History C} {c : C} {rest : List C} (hdone : h.done = c :: rest) :
    h.entries = rest.reverse ++ c :: h.undone := by
  rw [entries, hdone, List.reverse_cons, List.append_assoc, List.singleton_append]

theorem entries_of_undone {h : History C} {c : C} {rest : List C} (hundone : h.undone = c :: rest) :
    h.entries = h.done.reverse ++ c :: rest := by
  rw [entries, hundone]

theorem entries_push (h : History C) (c : C) :
    ∃ kept, kept <+: h.done ∧
      ((h.push c).entries = [] ∨ (h.push c).entries = kept.reverse ++ [c]) := by
  simp only [entries, push, keep, List.append_nil]
  cases h.limit with
  | none => exact ⟨h.done, List.prefix_refl _, .inr (List.reverse_cons ..)⟩
  | some n =>
    cases n with
    | zero => exact ⟨[], List.nil_prefix, .inl rfl⟩
    | succ n => exact ⟨h.done.take n, List.take_prefix .., .inr (List.reverse_cons ..)⟩

/-! ## Undoing and redoing -/

/-- What undoing and redoing have in common: the entry at place `i` has been through `step` and all
others are where they were. The boundary moves to `next` and the revision goes up, unless the step
has failed. -/
structure Acts (h : History C) (i next : Nat) (step : Step C S E) (o : Outcome C S E Bool) :
    Prop where
  entries : o.history.entries = h.entries.set i step.command
  target : o.target = step.target
  failed : ∀ err, step.failure = some err → o.answer = .error err ∧
    o.history.done.length = h.done.length ∧ o.history.revision = h.revision
  succeeded : step.failure = none → o.answer = .ok true ∧
    o.history.done.length = next ∧ o.history.revision = h.revision + 1

theorem Acts.revision {h : History C} {i next : Nat} {step : Step C S E}
    {o : Outcome C S E Bool} (hacts : Acts h i next step o) :
    o.history.revision = h.revision + UInt64.ofNat (o.answer.toOption == some true).toNat := by
  cases hfailure : step.failure with
  | none =>
    obtain ⟨hanswer, -, hrevision⟩ := hacts.succeeded hfailure
    rw [hanswer, hrevision]
    rfl
  | some err =>
    obtain ⟨hanswer, -, hrevision⟩ := hacts.failed err hfailure
    rw [hanswer, hrevision]
    exact (UInt64.add_zero _).symm

theorem set_boundary (cs rest : List C) (c c' : C) :
    (cs.reverse ++ c :: rest).set cs.length c' = cs.reverse ++ c' :: rest := by
  rw [List.set_append_right _ _ (by simp), List.length_reverse, Nat.sub_self, List.set_cons_zero]

theorem getElem?_boundary (cs rest : List C) (c : C) :
    (cs.reverse ++ c :: rest)[cs.length]? = some c := by
  rw [List.getElem?_append_right (by simp), List.length_reverse, Nat.sub_self,
    List.getElem?_cons_zero]

section

variable [Command C S E] {h : History C} {c : C} {rest : List C}

theorem undo_acts (hdone : h.done = c :: rest) (s : S) :
    Acts h rest.length rest.length (Command.revert c s) (h.undo s) := by
  -- the entry is back in its place whether it returns to the one side or goes to the other
  have hset (c' : C) : h.entries.set rest.length c' = rest.reverse ++ c' :: h.undone := by
    rw [entries_of_done hdone, set_boundary]
  rcases hrevert : Command.revert c s with ⟨c', s', failure⟩
  cases failure with
  | none =>
    simp only [undo, hdone, hrevert]
    refine ⟨(hset c').symm, rfl, ?_, fun _ => ⟨rfl, rfl, rfl⟩⟩
    intro err herr
    cases herr
  | some err =>
    simp only [undo, hdone, hrevert]
    refine ⟨?_, rfl, ?_, ?_⟩
    · rw [hset, entries_of_done rfl]
    · intro err' herr
      cases herr
      exact ⟨rfl, by rw [hdone, List.length_cons, List.length_cons], rfl⟩
    · intro hnone
      cases hnone

theorem redo_acts (hundone : h.undone = c :: rest) (s : S) :
    Acts h h.done.length (h.done.length + 1) (Command.apply c s) (h.redo s) := by
  have hset (c' : C) : h.entries.set h.done.length c' = h.done.reverse ++ c' :: rest := by
    rw [entries_of_undone hundone, set_boundary]
  rcases happly : Command.apply c s with ⟨c', s', failure⟩
  cases failure with
  | none =>
    simp only [redo, hundone, happly]
    refine ⟨?_, rfl, ?_, fun _ => ⟨rfl, rfl, rfl⟩⟩
    · rw [hset, entries_of_done rfl]
    · intro err herr
      cases herr
  | some err =>
    simp only [redo, hundone, happly]
    refine ⟨(hset c').symm, rfl, ?_, ?_⟩
    · intro err' herr
      cases herr
      exact ⟨rfl, rfl, rfl⟩
    · intro hnone
      cases hnone

theorem undo_finds (h : History C) (s : S) :
    (h.done = [] ∧ h.undo s = ⟨.ok false, h, s, []⟩) ∨
      ∃ n c, h.done.length = n + 1 ∧ h.entries[n]? = some c ∧
        Acts h n n (Command.revert c s) (h.undo s) := by
  cases hdone : h.done with
  | nil => exact .inl ⟨rfl, undo_of_nil hdone s⟩
  | cons c rest =>
    refine .inr ⟨rest.length, c, List.length_cons, ?_, undo_acts hdone s⟩
    rw [entries_of_done hdone, getElem?_boundary]

theorem redo_finds (h : History C) (s : S) :
    (h.undone = [] ∧ h.redo s = ⟨.ok false, h, s, []⟩) ∨
      ∃ c, h.entries[h.done.length]? = some c ∧
        Acts h h.done.length (h.done.length + 1) (Command.apply c s) (h.redo s) := by
  cases hundone : h.undone with
  | nil => exact .inl ⟨rfl, redo_of_nil hundone s⟩
  | cons c rest =>
    refine .inr ⟨c, ?_, redo_acts hundone s⟩
    rw [entries_of_undone hundone, getElem?_boundary]

theorem execute_of_error {err : E} {s : S} (herr : (h.execute c s).answer = .error err) :
    (h.execute c s).history = h := by
  simp only [execute] at herr ⊢
  split
  · rfl
  · rename_i happly
    rw [happly] at herr
    cases herr

end

/-! ## The revision -/

section

variable [Command C S E]

/-- Whether an operation counts as a change of the history: recording, undoing or redoing a command,
and giving up all of them if there are any. -/
def changes (h : History C) (s : S) : Request C → Bool
  | .push _ => true
  | .execute c => (h.execute c s).answer.isOk
  | .undo => (h.undo s).answer.toOption == some true
  | .redo => (h.redo s).answer.toOption == some true
  | .clear => !(h.done.isEmpty && h.undone.isEmpty)

/-- The history after a session in which every operation is given a target of its own: between two
operations the target may become any other. -/
def attend (h : History C) (calls : List (S × Request C)) : History C :=
  calls.foldl (fun h call => (h.perform call.1 call.2).history) h

/-- How many operations of a session count as changes of the history. -/
def changeCount (h : History C) : List (S × Request C) → Nat
  | [] => 0
  | (s, r) :: calls => (h.changes s r).toNat + changeCount (h.perform s r).history calls

theorem revision_perform (h : History C) (s : S) (r : Request C) :
    (h.perform s r).history.revision = h.revision + UInt64.ofNat (h.changes s r).toNat := by
  cases r with
  | push c => rfl
  | execute c =>
    simp only [perform, changes, execute]
    split
    · exact (UInt64.add_zero _).symm
    · rfl
  | undo =>
    rcases h.undo_finds s with ⟨-, hnothing⟩ | ⟨n, c, -, -, hacts⟩
    · simp only [perform, changes, hnothing]
      exact (UInt64.add_zero _).symm
    · exact hacts.revision
  | redo =>
    rcases h.redo_finds s with ⟨-, hnothing⟩ | ⟨c, -, hacts⟩
    · simp only [perform, changes, hnothing]
      exact (UInt64.add_zero _).symm
    · exact hacts.revision
  | clear =>
    simp only [perform, changes, clear]
    split
    · rename_i hempty
      rw [hempty]
      exact (UInt64.add_zero _).symm
    · rename_i hsome
      rw [eq_false_of_ne_true hsome]
      rfl

theorem revision_attend (h : History C) (calls : List (S × Request C)) :
    (h.attend calls).revision = h.revision + UInt64.ofNat (h.changeCount calls) := by
  induction calls generalizing h with
  | nil => exact (UInt64.add_zero _).symm
  | cons call calls ih =>
    obtain ⟨s, r⟩ := call
    calc (h.attend ((s, r) :: calls)).revision
        = ((h.perform s r).history.attend calls).revision := rfl
      _ = h.revision + UInt64.ofNat (h.changes s r).toNat +
            UInt64.ofNat ((h.perform s r).history.changeCount calls) := by
          rw [ih, revision_perform]
      _ = h.revision + UInt64.ofNat (h.changeCount ((s, r) :: calls)) := by
          rw [changeCount, UInt64.ofNat_add, UInt64.add_assoc]

/-! ## Every entry keeps its place -/

/-- **No entry is lost, doubled or moved, whatever fails** (`Acts`, `changeCount`). -/
theorem entries_keep_places (h : History C) (s : S) :
    ((h.done = [] ∧ h.undo s = ⟨.ok false, h, s, []⟩) ∨
      ∃ n c, h.done.length = n + 1 ∧ h.entries[n]? = some c ∧
        Acts h n n (Command.revert c s) (h.undo s)) ∧
    ((h.undone = [] ∧ h.redo s = ⟨.ok false, h, s, []⟩) ∨
      ∃ c, h.entries[h.done.length]? = some c ∧
        Acts h h.done.length (h.done.length + 1) (Command.apply c s) (h.redo s)) ∧
    (∀ c err, (h.execute c s).answer = .error err → (h.execute c s).history = h) ∧
    ∀ (limit : Option Nat) (calls : List (S × Request C)),
      ((empty limit : History C).attend calls).revision.toNat =
        (empty limit : History C).changeCount calls % UInt64.size := by
  refine ⟨h.undo_finds s, h.redo_finds s, fun c err => execute_of_error, fun limit calls => ?_⟩
  have hzero : (empty limit : History C).revision = 0 := rfl
  rw [revision_attend, hzero, UInt64.zero_add, UInt64.toNat_ofNat']

end

/-- A command that counts how often it is called and fails at one of the calls, without warning. -/
structure Tripwire where
  amount : Int
  failAt : Nat
  calls : Nat := 0
deriving DecidableEq

/-- The command after one more call, which adds to the target or fails. -/
def Tripwire.call (c : Tripwire) (amount s : Int) : Step Tripwire Int Unit :=
  let c := { c with calls := c.calls + 1 }
  if c.calls = c.failAt then ⟨c, s, some ()⟩ else ⟨c, s + amount, none⟩

instance : Command Tripwire Int Unit where
  apply c s := c.call c.amount s
  revert c s := c.call (-c.amount) s

theorem entries_keep_places_tripped :
    let calls : List (Int × Request Tripwire) :=
      [(0, .execute ⟨1, 9, 0⟩), (1, .execute ⟨5, 2, 0⟩), (6, .execute ⟨7, 1, 0⟩), (-3, .undo),
        (6, .undo)]
    let h := (empty none).attend (calls.take 3)
    let o := h.undo (-3 : Int)
    h.entries = [⟨1, 9, 1⟩, ⟨5, 2, 1⟩] ∧ o.answer = .error () ∧ o.target = -3 ∧
      o.history.entries = [⟨1, 9, 1⟩, ⟨5, 2, 2⟩] ∧ o.history.done.length = 2 ∧
      o.history.revision = h.revision ∧ (h.execute ⟨7, 1, 0⟩ (-3 : Int)).history = h ∧
      ((empty none).attend calls).revision.toNat = 3 := by
  intro calls h o
  obtain ⟨hundo, -, hexecute, hrevision⟩ := entries_keep_places h (-3 : Int)
  have hdone : h.done = [⟨5, 2, 1⟩, ⟨1, 9, 1⟩] := by decide
  have hentries : h.entries = [⟨1, 9, 1⟩, ⟨5, 2, 1⟩] := by decide
  rcases hundo with ⟨hnone, -⟩ | ⟨n, c, hlength, hentry, hacts⟩
  · rw [hdone] at hnone
    cases hnone
  · obtain rfl : n = 1 := by
      rw [hdone] at hlength
      exact (Nat.succ.inj hlength).symm
    rw [hentries] at hentry
    cases hentry
    obtain ⟨hanswer, hboundary, hkept⟩ := hacts.failed () rfl
    refine ⟨hentries, hanswer, hacts.target, ?_, ?_, hkept, hexecute _ () rfl, hrevision none calls⟩
    · rw [hacts.entries, hentries]
      rfl
    · rw [hboundary, hdone]
      rfl

end VectorEditor.History
