import VectorEditor.Proofs.LawfulHistory

/-!
# Bounded histories

The limit of a history is looked at where a command is recorded and nowhere else: redoing puts a
command back without asking for it. `History.Within` says that the limit holds all the same.
`History.Truncates` compares a bounded history with one that is asked the same and has no limit:
the same commands are undone, and of the others the bounded one has the most recent. The two
answer alike until an undo asks for a command that only the unbounded one has kept
(`History.bounded_run_is_truncated`), whatever the commands do and however they fail.
-/

namespace VectorEditor.History

variable {C S E : Type}

/-! ## Within the limit -/

/-- The history has a limit, and there is no more to undo and redo than it allows. -/
def Within (n : Nat) (h : History C) : Prop :=
  h.limit = some n ∧ h.done.length + h.undone.length ≤ n

theorem within_empty (n : Nat) : Within n (empty (some n) : History C) := by
  simp [Within, empty]

theorem within_push {n : Nat} {h : History C} (hlimit : h.limit = some n) (c : C) :
    Within n (h.push c) := by
  refine ⟨hlimit, ?_⟩
  simp only [push, keep, hlimit, List.length_take, List.length_nil]
  omega

@[simp] theorem done_clear (h : History C) : h.clear.done = [] := by
  unfold clear
  split
  · simp_all
  · rfl

@[simp] theorem undone_clear (h : History C) : h.clear.undone = [] := by
  unfold clear
  split
  · simp_all
  · rfl

section

variable [Command C S E]

theorem Within.perform {n : Nat} {h : History C} (hw : Within n h) (s : S) (r : Request C) :
    Within n (h.perform s r).history := by
  obtain ⟨hlimit, hle⟩ := hw
  cases r with
  | push c => exact within_push hlimit c
  | execute c =>
    simp only [History.perform, execute]
    split
    · exact ⟨hlimit, hle⟩
    · exact within_push hlimit _
  | undo =>
    simp only [History.perform, undo]
    split
    · exact ⟨hlimit, hle⟩
    · rename_i hdone
      rw [hdone, List.length_cons] at hle
      split
      · exact ⟨hlimit, hle⟩
      · refine ⟨hlimit, ?_⟩
        simp only [List.length_cons]
        omega
  | redo =>
    simp only [History.perform, redo]
    split
    · exact ⟨hlimit, hle⟩
    · rename_i hundone
      rw [hundone, List.length_cons] at hle
      split
      · exact ⟨hlimit, hle⟩
      · refine ⟨hlimit, ?_⟩
        simp only [List.length_cons]
        omega
  | clear =>
    refine ⟨(limit_perform h s .clear).trans hlimit, ?_⟩
    simp [History.perform]

theorem Within.run {n : Nat} (rs : List (Request C)) {h : History C} (hw : Within n h) (s : S) :
    Within n (h.run s rs).1 := by
  induction rs generalizing h s with
  | nil => exact hw
  | cons r rs ih => exact ih (hw.perform s r) _

end

/-! ## Beside a history without a limit -/

/-- The bounded history `b` has undone what the unbounded one has, and of the rest it has the most
recent commands: all but `lost` of them at most. -/
structure Truncates (n lost : Nat) (b u : History C) : Prop where
  bounded : b.limit = some n
  unbounded : u.limit = none
  undone : b.undone = u.undone
  done : b.done <+: u.done
  kept : u.done.length ≤ b.done.length + lost

namespace Truncates

variable {n lost : Nat} {b u : History C}

theorem empty (n : Nat) : Truncates n 0 (History.empty (some n) : History C) (History.empty none) :=
  ⟨rfl, rfl, rfl, List.prefix_refl _, Nat.le_refl _⟩

theorem mono (ht : Truncates n lost b u) {lost' : Nat} (hle : lost ≤ lost') :
    Truncates n lost' b u :=
  { ht with kept := Nat.le_trans ht.kept (Nat.add_le_add_left hle _) }

theorem push (ht : Truncates n lost b u) (c : C) :
    Truncates n (max lost ((u.push c).done.length - n)) (b.push c) (u.push c) := by
  obtain ⟨hb, hu, -, hdone, hkept⟩ := ht
  have hlength := hdone.length_le
  refine ⟨hb, hu, rfl, ?_, ?_⟩
  · simp only [History.push, keep, hb, hu]
    exact (List.take_prefix n _).trans ((List.prefix_cons_inj c).mpr hdone)
  · simp only [History.push, keep, hb, hu, List.length_take, List.length_cons]
    omega

theorem clear (ht : Truncates n lost b u) : Truncates n lost b.clear u.clear := by
  refine ⟨?_, ?_, ?_, ?_, ?_⟩
  · unfold History.clear
    split <;> exact ht.bounded
  · unfold History.clear
    split <;> exact ht.unbounded
  all_goals simp

variable [Command C S E]

theorem execute (ht : Truncates n lost b u) (c : C) (s : S) :
    (b.execute c s).answer = (u.execute c s).answer ∧
      (b.execute c s).target = (u.execute c s).target ∧
      Truncates n (max lost ((u.execute c s).history.done.length - n)) (b.execute c s).history
        (u.execute c s).history := by
  simp only [History.execute]
  split
  · exact ⟨rfl, rfl, ht.mono (Nat.le_max_left _ _)⟩
  · exact ⟨rfl, rfl, ht.push _⟩

theorem undo (ht : Truncates n lost b u) (hundo : b.done = [] → u.done = []) (s : S) :
    (b.undo s).answer = (u.undo s).answer ∧ (b.undo s).target = (u.undo s).target ∧
      Truncates n lost (b.undo s).history (u.undo s).history := by
  cases hb : b.done with
  | nil =>
    rw [undo_of_nil hb, undo_of_nil (hundo hb)]
    exact ⟨rfl, rfl, ht⟩
  | cons c rest =>
    obtain ⟨older, hu⟩ := ht.done
    have hkept := ht.kept
    rw [hb] at hu hkept
    rw [← hu] at hkept
    simp only [List.cons_append, List.length_cons, List.length_append] at hu hkept
    simp only [History.undo, hb, ← hu]
    split
    · refine ⟨rfl, rfl, ht.bounded, ht.unbounded, ht.undone, ?_, ?_⟩
      · exact (List.prefix_cons_inj _).mpr (List.prefix_append _ _)
      · simp only [List.length_cons, List.length_append]
        omega
    · refine ⟨rfl, rfl, ht.bounded, ht.unbounded, ?_, ?_, ?_⟩
      · simp only [ht.undone]
      · exact List.prefix_append _ _
      · simp only [List.length_append]
        omega

theorem redo (ht : Truncates n lost b u) (s : S) :
    (b.redo s).answer = (u.redo s).answer ∧ (b.redo s).target = (u.redo s).target ∧
      Truncates n lost (b.redo s).history (u.redo s).history := by
  have hkept := ht.kept
  cases hb : b.undone with
  | nil =>
    rw [redo_of_nil hb, redo_of_nil (ht.undone ▸ hb)]
    exact ⟨rfl, rfl, ht⟩
  | cons c rest =>
    have hu : u.undone = c :: rest := ht.undone ▸ hb
    simp only [History.redo, hb, hu]
    split
    · exact ⟨rfl, rfl, ht.bounded, ht.unbounded, rfl, ht.done, hkept⟩
    · refine ⟨rfl, rfl, ht.bounded, ht.unbounded, rfl, ?_, ?_⟩
      · exact (List.prefix_cons_inj _).mpr ht.done
      · simp only [List.length_cons]
        omega

theorem perform (ht : Truncates n lost b u) (s : S) (r : Request C)
    (hundo : r = .undo → b.done = [] → u.done = []) :
    (b.perform s r).answer = (u.perform s r).answer ∧
      (b.perform s r).target = (u.perform s r).target ∧
      Truncates n (max lost ((u.perform s r).history.done.length - n)) (b.perform s r).history
        (u.perform s r).history := by
  have hmax := Nat.le_max_left lost ((u.perform s r).history.done.length - n)
  cases r with
  | push c => exact ⟨rfl, rfl, ht.push c⟩
  | execute c =>
    obtain ⟨hanswer, htarget, hhistory⟩ := ht.execute c s
    exact ⟨by simp only [History.perform, hanswer], htarget, hhistory⟩
  | undo =>
    obtain ⟨hanswer, htarget, hhistory⟩ := ht.undo (hundo rfl) s
    exact ⟨by simp only [History.perform, hanswer], htarget, hhistory.mono hmax⟩
  | redo =>
    obtain ⟨hanswer, htarget, hhistory⟩ := ht.redo s
    exact ⟨by simp only [History.perform, hanswer], htarget, hhistory.mono hmax⟩
  | clear => exact ⟨rfl, rfl, ht.clear.mono hmax⟩

end Truncates

/-! ## Sessions -/

variable [Command C S E]

/-- The answers in the course of a session. -/
def answers (h : History C) (s : S) : List (Request C) → List (Except E (Option Bool))
  | [] => []
  | r :: rs =>
    (h.perform s r).answer :: answers (h.perform s r).history (h.perform s r).target rs

/-- The most commands that there are to undo at any time of a session. -/
def peak (h : History C) (s : S) : List (Request C) → Nat
  | [] => h.done.length
  | r :: rs => max h.done.length (peak (h.perform s r).history (h.perform s r).target rs)

theorem length_le_peak (h : History C) (s : S) (rs : List (Request C)) :
    h.done.length ≤ h.peak s rs := by
  cases rs with
  | nil => exact Nat.le_refl _
  | cons r rs => exact Nat.le_max_left _ _

theorem run_truncates {n : Nat} (rs : List (Request C)) {lost : Nat} {b u : History C}
    (ht : Truncates n lost b u) (s : S)
    (hundo : ∀ pre post, rs = pre ++ .undo :: post →
      (b.run s pre).1.done = [] → (u.run s pre).1.done = []) :
    b.answers s rs = u.answers s rs ∧ (b.run s rs).2 = (u.run s rs).2 ∧
      Truncates n (max lost (u.peak s rs - n)) (b.run s rs).1 (u.run s rs).1 := by
  induction rs generalizing lost b u s with
  | nil => exact ⟨rfl, rfl, ht.mono (Nat.le_max_left _ _)⟩
  | cons r rs ih =>
    obtain ⟨hanswer, htarget, hhistory⟩ := ht.perform s r fun hr => hundo [] rs (by rw [hr]; rfl)
    have hrest : ∀ pre post, rs = pre ++ .undo :: post →
        ((b.perform s r).history.run (u.perform s r).target pre).1.done = [] →
        ((u.perform s r).history.run (u.perform s r).target pre).1.done = [] := by
      intro pre post hrs
      have hpre := hundo (r :: pre) post (by rw [hrs]; rfl)
      simp only [run, htarget] at hpre
      exact hpre
    obtain ⟨hanswers, htargets, hhistories⟩ := ih hhistory (u.perform s r).target hrest
    simp only [answers, run, hanswer, htarget, hanswers, htargets, true_and]
    refine hhistories.mono ?_
    have hpeak := (u.perform s r).history.length_le_peak (u.perform s r).target rs
    simp only [peak]
    omega

/-- **A bounded history is a truncated view of the unbounded one** (`Truncates`, `Within`). -/
theorem bounded_run_is_truncated (n : Nat) (s : S) (rs : List (Request C)) :
    let b := (empty (some n) : History C).run s rs
    let u := (empty none : History C).run s rs
    b.1.done.length + b.1.undone.length ≤ n ∧
    ((∀ pre post, rs = pre ++ .undo :: post →
        ((empty (some n) : History C).run s pre).1.done = [] →
        ((empty none : History C).run s pre).1.done = []) →
      (empty (some n) : History C).answers s rs = (empty none).answers s rs ∧ b.2 = u.2 ∧
      b.1.undone = u.1.undone ∧ b.1.done <+: u.1.done ∧
      u.1.done.length ≤ b.1.done.length + ((empty none : History C).peak s rs - n)) := by
  intro b u
  refine ⟨((within_empty n).run rs s).2, fun hundo => ?_⟩
  obtain ⟨hanswers, htarget, htruncates⟩ := run_truncates rs (.empty n) s hundo
  refine ⟨hanswers, htarget, htruncates.undone, htruncates.done, ?_⟩
  simpa using htruncates.kept

theorem bounded_run_is_truncated_replacing :
    let rs : List (Request (Replacement Nat)) :=
      [.execute ⟨1⟩, .execute ⟨1⟩, .execute ⟨2⟩, .execute ⟨3⟩, .undo, .redo, .undo, .undo]
    let b := (empty (some 2)).run 0 rs
    let u := (empty none).run 0 rs
    (∀ pre post, rs = pre ++ .undo :: post →
      ((empty (some 2)).run 0 pre).1.done = [] → ((empty none).run 0 pre).1.done = []) ∧
      (empty (some 2)).answers 0 rs = (empty none).answers 0 rs ∧ b.2 = u.2 ∧ b.2 = 1 ∧
      b.1.undone = u.1.undone ∧ b.1.undone.length = 2 ∧ b.1.done.length = 0 ∧
      u.1.done.length = 1 := by
  intro rs b u
  have hshort : ∀ i < 8, ((empty (some 2)).run 0 (rs.take i)).1.done = [] →
      ((empty none).run 0 (rs.take i)).1.done = [] := by
    decide
  have hundo : ∀ pre post, rs = pre ++ .undo :: post →
      ((empty (some 2)).run 0 pre).1.done = [] → ((empty none).run 0 pre).1.done = [] := by
    intro pre post hrs
    have hlength : pre.length < 8 := by
      have heq := congrArg List.length hrs
      simp only [rs, List.length_cons, List.length_nil, List.length_append] at heq
      omega
    have hpre : rs.take pre.length = pre := by rw [hrs, List.take_left]
    rw [← hpre]
    exact hshort pre.length hlength
  obtain ⟨hanswers, htarget, hundone, -, -⟩ := (bounded_run_is_truncated 2 0 rs).2 hundo
  exact ⟨hundo, hanswers, htarget, rfl, hundone, rfl, rfl, rfl⟩

end VectorEditor.History
