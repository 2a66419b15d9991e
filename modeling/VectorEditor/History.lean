/-!
# Undo history

A history records commands that have been applied to a target, most recent first, and those that
have been undone, next to redo first. Undoing and redoing move one command across the boundary
between the two. Commands may hold data that they exchange with the target, so a command comes
back changed from being applied or reverted, and it may do so even when it fails.

This is the `History` of `easel_history` with its `Command`; `undo_entries` are `done` and
`redo_entries` are `undone`, which both have the next one first here.
-/

namespace VectorEditor

/-- What remains of applying or reverting a command: the command, its target, and why it failed
if it did. -/
structure Step (C S E : Type) where
  command : C
  target : S
  failure : Option E := none
deriving Repr, DecidableEq

/-- Commands that change a target and can take the change back. -/
class Command (C S : Type) (E : outParam Type) where
  /-- Makes the change. -/
  apply : C → S → Step C S E
  /-- Takes the change back. -/
  revert : C → S → Step C S E

/-- The applied commands and the undone ones. -/
structure History (C : Type) where
  /-- Applied commands, most recent first. -/
  done : List C := []
  /-- Undone commands, next to redo first. -/
  undone : List C := []
  /-- How many applied commands are kept. -/
  limit : Option Nat := none
  /-- Counts the changes of the history, modulo the size of the word. -/
  revision : UInt64 := 0
deriving Repr, DecidableEq

namespace History

variable {C S E : Type}

/-- What the history reports of its work. -/
inductive Notice where
  /-- A command was recorded, and so many can now be undone. -/
  | recorded (toUndo : Nat)
  /-- A command failed, and was not recorded. -/
  | applyFailed
  /-- A command was undone, and so many can now be undone and redone. -/
  | undone (toUndo toRedo : Nat)
  /-- A command could not be undone. -/
  | undoFailed
  /-- A command was redone, and so many can now be undone and redone. -/
  | redone (toUndo toRedo : Nat)
  /-- A command could not be redone. -/
  | redoFailed
deriving Repr, DecidableEq

/-- How much attention a notice asks for. -/
inductive Level where
  | debug
  | warn
deriving Repr, DecidableEq

namespace Notice

def level : Notice → Level
  | .recorded _ => .debug
  | .applyFailed => .warn
  | .undone _ _ => .debug
  | .undoFailed => .warn
  | .redone _ _ => .debug
  | .redoFailed => .warn

def message : Notice → String
  | .recorded m => s!"history: recorded entry ({m} undo, 0 redo)"
  | .applyFailed => "history: command failed to apply; not recorded"
  | .undone m n => s!"history: undo ({m} undo, {n} redo)"
  | .undoFailed => "history: undo failed; entry kept"
  | .redone m n => s!"history: redo ({m} undo, {n} redo)"
  | .redoFailed => "history: redo failed; entry kept"

end Notice

/-- The outcome of an operation: its answer, the history and the target after it, and what was
reported. -/
structure Outcome (C S E R : Type) where
  answer : Except E R
  history : History C
  target : S
  log : List Notice

/-- The history in which nothing was ever recorded. -/
def empty (limit : Option Nat) : History C := { limit }

def changesMade (h : History C) : Bool := !h.done.isEmpty

def redoAvailable (h : History C) : Bool := !h.undone.isEmpty

/-- The most recent commands that the limit allows. -/
def keep (h : History C) (cs : List C) : List C :=
  match h.limit with
  | some n => cs.take n
  | none => cs

/-- Records a command that has been applied. What was undone before cannot be redone any more. -/
def push (h : History C) (c : C) : History C :=
  { h with done := h.keep (c :: h.done), undone := [], revision := h.revision + 1 }

def recordedNotice (h : History C) : Notice := .recorded h.done.length

def clear (h : History C) : History C :=
  if h.done.isEmpty && h.undone.isEmpty then h
  else { h with done := [], undone := [], revision := h.revision + 1 }

section

variable [Command C S E]

/-- Applies a command and records it. A command that fails is not recorded. -/
def execute (h : History C) (c : C) (s : S) : Outcome C S E Unit :=
  match Command.apply c s with
  | ⟨_, s, some err⟩ => ⟨.error err, h, s, [.applyFailed]⟩
  | ⟨c, s, none⟩ => ⟨.ok (), h.push c, s, [(h.push c).recordedNotice]⟩

/-- Takes the most recent command back; the answer tells whether there was one. A command that
fails stays where it is. -/
def undo (h : History C) (s : S) : Outcome C S E Bool :=
  match h.done with
  | [] => ⟨.ok false, h, s, []⟩
  | c :: rest =>
    match Command.revert c s with
    | ⟨c, s, some err⟩ => ⟨.error err, { h with done := c :: rest }, s, [.undoFailed]⟩
    | ⟨c, s, none⟩ =>
      ⟨.ok true, { h with done := rest, undone := c :: h.undone, revision := h.revision + 1 }, s,
        [.undone rest.length (h.undone.length + 1)]⟩

/-- Applies the command undone last again; the answer tells whether there was one. A command that
fails stays where it is. -/
def redo (h : History C) (s : S) : Outcome C S E Bool :=
  match h.undone with
  | [] => ⟨.ok false, h, s, []⟩
  | c :: rest =>
    match Command.apply c s with
    | ⟨c, s, some err⟩ => ⟨.error err, { h with undone := c :: rest }, s, [.redoFailed]⟩
    | ⟨c, s, none⟩ =>
      ⟨.ok true, { h with done := c :: h.done, undone := rest, revision := h.revision + 1 }, s,
        [.redone (h.done.length + 1) rest.length]⟩

/-! ## Requests -/

/-- An operation on the history. -/
inductive Request (C : Type) where
  | push (c : C)
  | execute (c : C)
  | undo
  | redo
  | clear
deriving Repr, DecidableEq

/-- Carries out an operation. Undo and redo answer whether there was a command, the others give no
answer. -/
def perform (h : History C) (s : S) : Request C → Outcome C S E (Option Bool)
  | .push c => ⟨.ok none, h.push c, s, [(h.push c).recordedNotice]⟩
  | .execute c =>
    let o := h.execute c s
    ⟨o.answer.map fun _ => none, o.history, o.target, o.log⟩
  | .undo =>
    let o := h.undo s
    ⟨o.answer.map some, o.history, o.target, o.log⟩
  | .redo =>
    let o := h.redo s
    ⟨o.answer.map some, o.history, o.target, o.log⟩
  | .clear => ⟨.ok none, h.clear, s, []⟩

end

end History

end VectorEditor
