import VectorEditor.Proofs.Views

/-!
# Updates of a view

A view builds its transforms anew only where a new size or pan offset differs from the old one as a
number. That is not equality: the two zeros are the same number and have different signs, and what is
not a number differs from itself. `keep` is the value that stands after such a comparison. On a view
whose transforms are up to date, an update is one `keep` of the size or of the offset
(`View.setSize_build`, `View.setPan_build`), so the transforms stay up to date over any run and sizes
and offsets do not get in each other's way (`View.transforms_never_stale`).
-/

namespace VectorEditor

variable {α K : Type}

/-- The value after an update that is left out where it makes no difference as a number. -/
def keep [BEq α] (old new : α) : α := if old == new then old else new

section

variable [BEq α] {x y : α}

theorem keep_of_beq (h : (x == y) = true) : keep x y = x := if_pos h

theorem keep_of_not_beq (h : ¬(x == y) = true) : keep x y = y := if_neg h

@[simp] theorem keep_self (x : α) : keep x x = x := ite_self x

/-- Told the same again, a value stays, even where it does not equal itself. -/
@[simp] theorem keep_keep (x y : α) : keep (keep x y) y = keep x y := by
  by_cases hsame : (x == y) = true
  · rw [keep_of_beq hsame, keep_of_beq hsame]
  · rw [keep_of_not_beq hsame, keep_self]

end

namespace View

/-- A change of a view. -/
inductive Update (α : Type) where
  | resize (size : Size α)
  | setPan (pan : Vec α)
  | panBy (delta : Vec α)

variable [Scalar α]

namespace Update

def isResize : Update α → Bool
  | .resize _ => true
  | _ => false

/-- What an update makes of the size. -/
def size (old : Size α) : Update α → Size α
  | .resize size => keep old size
  | _ => old

/-- What an update makes of the pan offset. -/
def pan (old : Vec α) : Update α → Vec α
  | .setPan pan => keep old pan
  | .panBy delta => keep old (old + delta)
  | .resize _ => old

theorem foldl_size_filter (us : List (Update α)) (old : Size α) :
    (us.filter isResize).foldl size old = us.foldl size old := by
  rw [List.foldl_filter]
  congr 1
  funext old u
  cases u <;> rfl

theorem foldl_pan_filter (us : List (Update α)) (old : Vec α) :
    (us.filter (!·.isResize)).foldl pan old = us.foldl pan old := by
  rw [List.foldl_filter]
  congr 1
  funext old u
  cases u <;> rfl

end Update

/-- The view after an update. -/
def update (v : View α) : Update α → View α
  | .resize size => v.setSize size
  | .setPan pan => v.setPan pan
  | .panBy delta => v.panBy delta

/-- The view after a run of updates. -/
def updateAll (v : View α) (us : List (Update α)) : View α := us.foldl update v

/-! ## Views that are up to date -/

@[simp] theorem setSize_build (size size' : Size α) (pan : Vec α) :
    (build size pan).setSize size' = build (keep size size') pan := by
  by_cases hsame : (size == size') = true
  · rw [keep_of_beq hsame]
    exact if_pos hsame
  · rw [keep_of_not_beq hsame]
    exact if_neg hsame

@[simp] theorem setPan_build (size : Size α) (pan pan' : Vec α) :
    (build size pan).setPan pan' = build size (keep pan pan') := by
  by_cases hsame : (pan == pan') = true
  · rw [keep_of_beq hsame]
    exact if_pos hsame
  · rw [keep_of_not_beq hsame]
    exact if_neg hsame

theorem update_build (size : Size α) (pan : Vec α) (u : Update α) :
    (build size pan).update u = build (u.size size) (u.pan pan) := by
  cases u with
  | resize size' => exact setSize_build size size' pan
  | setPan pan' => exact setPan_build size pan pan'
  | panBy delta => exact setPan_build size pan (pan + delta)

theorem updateAll_build (us : List (Update α)) (size : Size α) (pan : Vec α) :
    (build size pan).updateAll us = build (us.foldl Update.size size) (us.foldl Update.pan pan) := by
  induction us generalizing size pan with
  | nil => rfl
  | cons u us ih =>
    calc (build size pan).updateAll (u :: us)
        = ((build size pan).update u).updateAll us := rfl
      _ = (build (u.size size) (u.pan pan)).updateAll us := by rw [update_build]
      _ = build ((u :: us).foldl Update.size size) ((u :: us).foldl Update.pan pan) := ih _ _

theorem updateAll_ofSize (us : List (Update α)) (size : Size α) :
    (ofSize size).updateAll us =
      build (us.foldl Update.size size) (us.foldl Update.pan Vec.zero) :=
  updateAll_build us size Vec.zero

theorem Reachable.updateAll {v : View α} (h : v.Reachable) (us : List (Update α)) :
    (v.updateAll us).Reachable := by
  induction us generalizing v with
  | nil => exact h
  | cons u us ih =>
    apply ih
    cases u with
    | resize size => exact h.setSize size
    | setPan pan => exact h.setPan pan
    | panBy delta => exact h.panBy delta

variable [DecidableEq K]

/-- **The transforms of a view are never stale**: after any updates they are those of `build`. -/
theorem transforms_never_stale (size : Size α) (us : List (Update α)) :
    let v := (ofSize size).updateAll us
    (v.worldToView = (build v.size v.pan).worldToView ∧
      v.viewToWorld = (build v.size v.pan).viewToWorld) ∧
    (v.size = us.foldl Update.size size ∧ v.pan = us.foldl Update.pan Vec.zero) ∧
    (∀ s p, (v.setSize s).setPan p = (v.setPan p).setSize s) ∧
    (∀ us' : List (Update α), us'.filter Update.isResize = us.filter Update.isResize →
      us'.filter (!·.isResize) = us.filter (!·.isResize) → (ofSize size).updateAll us' = v) ∧
    (∀ s p, (v.setSize s).setSize s = v.setSize s ∧ (v.setPan p).setPan p = v.setPan p) ∧
    (v.setSize v.size = v ∧ v.setPan v.pan = v) ∧
    ∀ events : List (Interaction.Event α K),
      (∀ view, .setView view ∈ events → view.Reachable) →
      let shown := ((Interaction.ofView v).run events).view
      shown = build shown.size shown.pan := by
  intro v
  have hv : v = build (us.foldl Update.size size) (us.foldl Update.pan Vec.zero) :=
    updateAll_ofSize us size
  have hreachable : v.Reachable := (Reachable.ofSize size).updateAll us
  refine ⟨?_, ?_, fun s p => ?_, fun us' hsizes hpans => ?_, fun s p => ?_, ?_,
    fun events hviews => ?_⟩
  · rw [hv]
    exact ⟨rfl, rfl⟩
  · rw [hv]
    exact ⟨rfl, rfl⟩
  · simp only [hv, setSize_build, setPan_build]
  · rw [hv, updateAll_ofSize, ← Update.foldl_size_filter us', hsizes, Update.foldl_size_filter,
      ← Update.foldl_pan_filter us', hpans, Update.foldl_pan_filter]
  · simp only [hv, setSize_build, setPan_build, keep_keep, and_self]
  · rw [hv]
    exact ⟨(setSize_build _ _ _).trans (congrArg (build · _) (keep_self _)),
      (setPan_build _ _ _).trans (congrArg (build _) (keep_self _))⟩
  · exact (Interaction.reachable_view_run hreachable hviews).eq_build

/-- The sign of a zero outlasts the other zero, and what is not a number replaces itself. -/
theorem transforms_never_stale_signed :
    let nan : Float := 0 / 0
    let us : List (Update Float) := [.setPan ⟨-0.0, nan⟩, .resize ⟨-0.0, 600⟩, .panBy ⟨1, 2⟩]
    let us' : List (Update Float) := [.resize ⟨-0.0, 600⟩, .setPan ⟨-0.0, nan⟩, .panBy ⟨1, 2⟩]
    let v := (ofSize ⟨0, 600⟩).updateAll us
    (v.size = ⟨0, 600⟩ ∧ v.size ≠ ⟨-0.0, 600⟩ ∧ v.pan = ⟨1, nan⟩) ∧
      (ofSize ⟨0, 600⟩).updateAll us' = v ∧ v.setPan v.pan = v ∧
      ((Interaction.ofView v : Interaction Float Key).run [.setView default]).view =
        build ⟨800, 600⟩ Vec.zero := by
  intro nan us us' v
  obtain ⟨-, hcontent, -, hreorder, -, hsame, hsession⟩ :=
    transforms_never_stale (K := Key) (⟨0, 600⟩ : Size Float) us
  have hviews : ∀ view, .setView view ∈
      ([.setView default] : List (Interaction.Event Float Key)) → view.Reachable := by
    intro view hmem
    obtain rfl : view = default := by simpa using hmem
    exact .ofSize _
  refine ⟨⟨?_, ?_, ?_⟩, hreorder us' rfl rfl, hsame.2, hsession _ hviews⟩
  · rw [hcontent.1]
    decide
  · rw [hcontent.1]
    decide
  · rw [hcontent.2]
    decide

end View

end VectorEditor
