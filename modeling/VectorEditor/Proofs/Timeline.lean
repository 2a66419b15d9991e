import VectorEditor.History

/-!
# Timelines

A timeline is what a user of undo and redo has in mind: the states before the present one, the
present, and the states that were undone. A history tracks a timeline of its target when each of its
commands leads from one state of the timeline to the next and back (`History.Tracks`). Undoing,
redoing and recording then move through the timeline as they should.
-/

namespace VectorEditor

/-- The states before the present one, most recent first, and those undone, next to redo first. -/
structure Timeline (X : Type) where
  past : List X
  present : X
  future : List X

namespace Timeline

variable {X Y : Type}

/-- The timeline of a state before which there was none. -/
def start (x : X) : Timeline X := ⟨[], x, []⟩

/-- All states, in the order of time. -/
def states (z : Timeline X) : List X := z.past.reverse ++ z.present :: z.future

/-- Every state of the timeline is replaced. -/
def map (f : X → Y) (z : Timeline X) : Timeline Y := ⟨z.past.map f, f z.present, z.future.map f⟩

/-- A new state becomes the present. Of the past as many states as the limit allows are kept, and
the future is given up. -/
def record (limit : Option Nat) (z : Timeline X) (x : X) : Timeline X where
  past := match limit with
    | some n => (z.present :: z.past).take n
    | none => z.present :: z.past
  present := x
  future := []

/-- One state back, if there is one. -/
def back (z : Timeline X) : Timeline X :=
  match z.past with
  | [] => z
  | x :: past => ⟨past, x, z.present :: z.future⟩

/-- One state forward, if there is one. -/
def forward (z : Timeline X) : Timeline X :=
  match z.future with
  | [] => z
  | x :: future => ⟨z.present :: z.past, x, future⟩

theorem map_map {Z : Type} (g : Y → Z) (f : X → Y) (z : Timeline X) :
    (z.map f).map g = z.map (g ∘ f) := by
  simp only [map, List.map_map, Function.comp_apply]

theorem map_congr {f g : X → Y} {z : Timeline X} (h : ∀ x ∈ z.states, f x = g x) :
    z.map f = z.map g := by
  have hpast : z.past.map f = z.past.map g :=
    List.map_congr_left fun x hx => h x (by simp [states, hx])
  have hpresent : f z.present = g z.present := h z.present (by simp [states])
  have hfuture : z.future.map f = z.future.map g :=
    List.map_congr_left fun x hx => h x (by simp [states, hx])
  rw [map, map, hpast, hpresent, hfuture]

theorem map_record (f : X → Y) (limit : Option Nat) (z : Timeline X) (x : X) :
    (z.record limit x).map f = (z.map f).record limit (f x) := by
  cases limit with
  | none => rfl
  | some n => simp only [map, record, List.map_take, List.map_cons, List.map_nil]

theorem map_back (f : X → Y) (z : Timeline X) : z.back.map f = (z.map f).back := by
  obtain ⟨past, present, future⟩ := z
  cases past <;> rfl

theorem map_forward (f : X → Y) (z : Timeline X) : z.forward.map f = (z.map f).forward := by
  obtain ⟨past, present, future⟩ := z
  cases future <;> rfl

end Timeline

variable {C S E : Type} [Command C S E]

/-- Taking the command `c` back in the state `s` leads to `c'` and `s'`, and making it again leads
back. -/
def Exchange (c : C) (s : S) (c' : C) (s' : S) : Prop :=
  Command.revert c s = ⟨c', s', none⟩ ∧ Command.apply c' s' = ⟨c, s, none⟩

namespace History

/-- Taking the commands back one after the other leads through the states. -/
inductive Past : List C → S → List S → Prop
  | nil (s : S) : Past [] s []
  | cons {c c' : C} {s p : S} {cs : List C} {ps : List S} (hstep : Exchange c s c' p)
    (hrest : Past cs p ps) : Past (c :: cs) s (p :: ps)

/-- Making the commands one after the other leads through the states. -/
inductive Future : List C → S → List S → Prop
  | nil (s : S) : Future [] s []
  | cons {c c' : C} {s f : S} {cs : List C} {fs : List S} (hstep : Exchange c' f c s)
    (hrest : Future cs f fs) : Future (c :: cs) s (f :: fs)

theorem Past.length_eq {cs : List C} {s : S} {ps : List S} (h : Past cs s ps) :
    ps.length = cs.length := by
  induction h with
  | nil s => rfl
  | cons _ _ ih => rw [List.length_cons, List.length_cons, ih]

theorem Future.length_eq {cs : List C} {s : S} {fs : List S} (h : Future cs s fs) :
    fs.length = cs.length := by
  induction h with
  | nil s => rfl
  | cons _ _ ih => rw [List.length_cons, List.length_cons, ih]

theorem Past.take {cs : List C} {s : S} {ps : List S} (h : Past cs s ps) (n : Nat) :
    Past (cs.take n) s (ps.take n) := by
  induction h generalizing n with
  | nil s => simpa only [List.take_nil] using Past.nil s
  | cons hstep _ ih =>
    cases n with
    | zero => exact .nil _
    | succ n => exact .cons hstep (ih n)

/-- What no exchange alters is the same in all states of the past. -/
theorem Past.forall_eq {β : Type} {f : S → β}
    (hf : ∀ {c c' : C} {s p : S}, Exchange c s c' p → f p = f s) {cs : List C} {s : S}
    {ps : List S} (h : Past cs s ps) : ∀ p ∈ ps, f p = f s := by
  induction h with
  | nil s =>
    intro p hp
    cases hp
  | cons hstep _ ih =>
    intro p hp
    rcases List.mem_cons.mp hp with rfl | hp
    · exact hf hstep
    · exact (ih p hp).trans (hf hstep)

theorem Future.forall_eq {β : Type} {f : S → β}
    (hf : ∀ {c c' : C} {s p : S}, Exchange c s c' p → f p = f s) {cs : List C} {s : S}
    {fs : List S} (h : Future cs s fs) : ∀ p ∈ fs, f p = f s := by
  induction h with
  | nil s =>
    intro p hp
    cases hp
  | cons hstep _ ih =>
    intro p hp
    rcases List.mem_cons.mp hp with rfl | hp
    · exact (hf hstep).symm
    · exact (ih p hp).trans (hf hstep).symm

theorem Past.map {f : S → S}
    (hf : ∀ {c c' : C} {s p : S}, Exchange c s c' p → Exchange c (f s) c' (f p)) {cs : List C}
    {s : S} {ps : List S} (h : Past cs s ps) : Past cs (f s) (ps.map f) := by
  induction h with
  | nil s => exact .nil _
  | cons hstep _ ih => exact .cons (hf hstep) ih

theorem Future.map {f : S → S}
    (hf : ∀ {c c' : C} {s p : S}, Exchange c s c' p → Exchange c (f s) c' (f p)) {cs : List C}
    {s : S} {fs : List S} (h : Future cs s fs) : Future cs (f s) (fs.map f) := by
  induction h with
  | nil s => exact .nil _
  | cons hstep _ ih => exact .cons (hf hstep) ih

/-- The history leads through the timeline of its target. -/
structure Tracks (h : History C) (s : S) (z : Timeline S) : Prop where
  past : Past h.done s z.past
  present : z.present = s
  future : Future h.undone s z.future

namespace Tracks

variable {h : History C} {s : S} {z : Timeline S}

theorem empty (limit : Option Nat) (s : S) :
    Tracks (History.empty limit : History C) s (.start s) :=
  ⟨.nil s, rfl, .nil s⟩

theorem map {f : S → S}
    (hf : ∀ {c c' : C} {s p : S}, Exchange c s c' p → Exchange c (f s) c' (f p))
    (ht : Tracks h s z) : Tracks h (f s) (z.map f) :=
  ⟨ht.past.map hf, congrArg f ht.present, ht.future.map hf⟩

theorem forall_eq {β : Type} {f : S → β}
    (hf : ∀ {c c' : C} {s p : S}, Exchange c s c' p → f p = f s) (ht : Tracks h s z) :
    ∀ x ∈ z.states, f x = f s := by
  intro x hx
  rcases List.mem_append.mp hx with hx | hx
  · exact ht.past.forall_eq hf x (List.mem_reverse.mp hx)
  · rcases List.mem_cons.mp hx with rfl | hx
    · rw [ht.present]
    · exact ht.future.forall_eq hf x hx

theorem push {c c' : C} {s' : S} (ht : Tracks h s z) (hex : Exchange c s' c' s) :
    Tracks (h.push c) s' (z.record h.limit s') := by
  obtain ⟨hpast, rfl, -⟩ := ht
  refine ⟨?_, rfl, .nil s'⟩
  simp only [History.push, keep, Timeline.record]
  cases h.limit with
  | none => exact .cons hex hpast
  | some n => exact (Past.cons hex hpast).take n

/-- **Undoing goes one state back**, and fails at no state. -/
theorem undo (ht : Tracks h s z) :
    (h.undo s).answer = .ok (!z.past.isEmpty) ∧
      Tracks (h.undo s).history (h.undo s).target z.back := by
  obtain ⟨done, undone, limit, revision⟩ := h
  obtain ⟨past, present, future⟩ := z
  obtain ⟨hpast, rfl, hfuture⟩ := ht
  cases hpast with
  | nil => exact ⟨rfl, .nil _, rfl, hfuture⟩
  | cons hstep hrest =>
    simp only [History.undo, hstep.1]
    exact ⟨rfl, hrest, rfl, .cons hstep hfuture⟩

theorem redo (ht : Tracks h s z) :
    (h.redo s).answer = .ok (!z.future.isEmpty) ∧
      Tracks (h.redo s).history (h.redo s).target z.forward := by
  obtain ⟨done, undone, limit, revision⟩ := h
  obtain ⟨past, present, future⟩ := z
  obtain ⟨hpast, rfl, hfuture⟩ := ht
  cases hfuture with
  | nil => exact ⟨rfl, hpast, rfl, .nil _⟩
  | cons hstep hrest =>
    simp only [History.redo, hstep.2]
    exact ⟨rfl, .cons hstep hpast, rfl, hrest⟩

end Tracks

end History

end VectorEditor
