import VectorEditor.Proofs.AffineMaps
import VectorEditor.Proofs.Change

/-!
# Taking transformations back by their inverses

A transformation that has been made is taken back by the transform recorded then, one that has not
been made by the inverse computed beforehand. In exact arithmetic there is no difference: the
inverse acts on the same side as the transform did, so it takes the object back to where it was
(`Frame.compose_inverse`), and a whole list of transforms is taken back from its end by changes that
were never made (`Canvas.inverses_take_back`).
-/

namespace VectorEditor

variable {α T : Type}

theorem Frame.compose_inverse [ExactScalar α] (frame : Frame) (old : Affine α) {t : Affine α}
    (h : t.determinant ≠ 0) : frame.compose (frame.compose old t) t.inverse = old := by
  cases frame with
  | world =>
    show t.inverse * (t * old) = old
    rw [← mul_assoc, Affine.inverse_mul h, one_mul]
  | object =>
    show old * t * t.inverse = old
    rw [mul_assoc, Affine.mul_inverse h, mul_one]

/-- The target after a command, or why the command failed. -/
def Step.result {C S E : Type} (s : Step C S E) : Except E S :=
  match s.failure with
  | none => .ok s.target
  | some err => .error err

/-! ## Motions -/

/-- A transform that is meant for an object. -/
structure Motion (α : Type) where
  key : Key
  transform : Affine α
  frame : Frame

namespace Motion

section

variable [Scalar α]

/-- The object after the motion. -/
def moved (m : Motion α) (d : Drawable α T) : Drawable α T :=
  { d with transform := m.frame.compose d.transform m.transform }

/-- The change that stands for the motion and has not been made, if there is one. -/
def record? (m : Motion α) : Except (Singular α) (Transformation α) :=
  Transformation.new? m.key m.transform m.frame

/-- The change that stands for a motion that can be taken back. -/
def record (m : Motion α) : Transformation α :=
  ⟨m.key, m.transform, m.transform.inverse, m.frame, none⟩

end

variable [ExactScalar α] {m : Motion α}

theorem record?_eq_ok (h : m.transform.determinant ≠ 0) : m.record? = .ok m.record := by
  rw [record?, Transformation.new?, Affine.inverse?_eq_ok h]
  rfl

theorem record?_eq_error (h : m.transform.determinant = 0) : m.record? = .error ⟨0⟩ := by
  rw [record?, Transformation.new?, Affine.inverse?_eq_error h]
  rfl

theorem exists_record?_iff : (∃ r, m.record? = .ok r) ↔ m.transform.determinant ≠ 0 := by
  constructor
  · rintro ⟨r, hr⟩ hzero
    rw [record?_eq_error hzero] at hr
    cases hr
  · exact fun h => ⟨_, record?_eq_ok h⟩

end Motion

namespace Canvas

section

variable [Scalar α] [Region α T] {c : Canvas α T} {m : Motion α} {d : Drawable α T}

/-- The canvas after a motion. -/
def move (c : Canvas α T) (m : Motion α) : Except Error (Canvas α T) :=
  (c.applyTransform m.key m.transform m.frame).map (·.2)

theorem move_of_live (h : c.slot? m.key = some (some d)) :
    c.move m = .ok (c.put m.key (some (m.moved d))) := by
  simp only [move, applyTransform, mapTransform, update_of_some (get?_eq_some_iff.mpr h),
    Except.map, Motion.moved]

/-- The canvas after motions one after the other. -/
def moveAll (c : Canvas α T) (ms : List (Motion α)) : Except Error (Canvas α T) := ms.foldlM move c

/-- The canvas after transformations are taken back one after the other. -/
def takeBackAll (c : Canvas α T) (rs : List (Transformation α)) : Except Error (Canvas α T) :=
  rs.foldlM (fun c r => ((Change.transformation r).revert c).result) c

theorem apply_record (h : c.slot? m.key = some (some d)) :
    ∃ ch, (Change.transformation m.record).apply c = ⟨ch, c.put m.key (some (m.moved d)), none⟩ :=
  ⟨_, Change.apply_of_applies h (.transform rfl)⟩

end

section

variable [ExactScalar α] [Region α T] {c : Canvas α T} {m : Motion α} {d : Drawable α T}

theorem revert_record (h : c.slot? m.key = some (some d)) (hdet : m.transform.determinant ≠ 0) :
    (Change.transformation m.record).revert (c.put m.key (some (m.moved d))) =
      ⟨.transformation m.record, c, none⟩ := by
  have hmoved := slot?_put_self h (some (m.moved d))
  have hback : (Change.transformation m.record).revert (c.put m.key (some (m.moved d))) = _ :=
    Change.revert_of_reverts hmoved (.invert rfl)
  rw [hback, Step.mk.injEq]
  refine ⟨rfl, ?_, rfl⟩
  simp only [Change.key, Motion.record, Motion.moved, put_put, Frame.compose_inverse _ _ hdet]
  exact put_of_slot? h

/-! ## Lists of motions -/

theorem mapM_record? {ms : List (Motion α)} (h : ∀ m ∈ ms, m.transform.determinant ≠ 0) :
    ms.mapM Motion.record? = .ok (ms.map Motion.record) := by
  induction ms with
  | nil => rfl
  | cons m ms ih =>
    obtain ⟨hm, hms⟩ := List.forall_mem_cons.mp h
    rw [List.mapM_cons, Motion.record?_eq_ok hm, ih hms]
    rfl

theorem exists_moveAll {ms : List (Motion α)}
    (h : ∀ m ∈ ms, c.contains m.key = true ∧ m.transform.determinant ≠ 0) :
    ∃ c', c.moveAll ms = .ok c' ∧ c'.takeBackAll (ms.map Motion.record).reverse = .ok c := by
  induction ms generalizing c with
  | nil => exact ⟨c, rfl, rfl⟩
  | cons m ms ih =>
    obtain ⟨⟨hlive, hdet⟩, hms⟩ := List.forall_mem_cons.mp h
    obtain ⟨d, hd⟩ := Option.isSome_iff_exists.mp hlive
    have hslot : c.slot? m.key = some (some d) := get?_eq_some_iff.mp hd
    -- the first motion leaves every object where it can be found by the others
    obtain ⟨c', hmove, hback⟩ : ∃ c', (c.put m.key (some (m.moved d))).moveAll ms = .ok c' ∧
        c'.takeBackAll (ms.map Motion.record).reverse = .ok (c.put m.key (some (m.moved d))) := by
      refine ih fun m' hm' => ?_
      rw [contains_put_some hslot]
      exact hms m' hm'
    refine ⟨c', ?_, ?_⟩
    · rw [moveAll, List.foldlM_cons, move_of_live hslot]
      exact hmove
    · rw [List.map_cons, List.reverse_cons, takeBackAll, List.foldlM_append]
      rw [takeBackAll] at hback
      rw [hback]
      show (Change.revert (.transformation m.record) _).result >>= pure = .ok c
      rw [revert_record hslot hdet]
      rfl

end

/-- **Transformations that were never made take motions back**, one by one from the last. -/
theorem inverses_take_back [ExactScalar α] [Region α T] :
    (∀ m : Motion α, (∃ r, m.record? = .ok r) ↔ m.transform.determinant ≠ 0) ∧
    (∀ (c : Canvas α T) (m : Motion α), c.contains m.key = true → m.transform.determinant ≠ 0 →
      ∃ r ch c', m.record? = .ok r ∧ c.move m = .ok c' ∧
        ((Change.transformation r).revert c').result = .ok c ∧
        (Change.transformation r).apply c = ⟨ch, c', none⟩ ∧ (ch.revert c').result = .ok c) ∧
    ∀ (c : Canvas α T) (ms : List (Motion α)),
      (∀ m ∈ ms, c.contains m.key = true ∧ m.transform.determinant ≠ 0) →
      ∃ rs c', ms.mapM Motion.record? = .ok rs ∧ c.moveAll ms = .ok c' ∧
        c'.takeBackAll rs.reverse = .ok c := by
  refine ⟨fun m => Motion.exists_record?_iff, fun c m hlive hdet => ?_, fun c ms h => ?_⟩
  · obtain ⟨d, hd⟩ := Option.isSome_iff_exists.mp hlive
    have hslot : c.slot? m.key = some (some d) := get?_eq_some_iff.mp hd
    obtain ⟨ch, happly⟩ := apply_record hslot
    have hnew : (Change.transformation m.record).New c := ⟨Affine.inverse?_eq_ok hdet, rfl⟩
    obtain ⟨ch', hback, -⟩ := Change.exchange_of_apply happly fun s hs => hnew.fits hs
    refine ⟨m.record, ch, _, Motion.record?_eq_ok hdet, move_of_live hslot, ?_, happly, ?_⟩
    · rw [revert_record hslot hdet]
      rfl
    · exact congrArg Step.result hback
  · obtain ⟨c', hmove, hback⟩ := exists_moveAll h
    exact ⟨_, c', mapM_record? fun m hm => (h m hm).2, hmove, hback⟩

theorem inverses_take_back_mixed :
    let square (t : Affine ℝ) : Drawable ℝ (Rect ℝ) := ⟨⟨0, 0, 10, 10⟩, t, 0, default⟩
    let c : Canvas ℝ (Rect ℝ) :=
      .ofSlots #[some (square ⟨1, 2, 0, 1, 5, 7⟩), none, some (square .identity)]
    let m : Motion ℝ := ⟨⟨0⟩, ⟨2, 0, 0, 3, 1, 0⟩, .object⟩
    let ms : List (Motion ℝ) :=
      [m, ⟨⟨2⟩, ⟨1, 1, 0, 1, 0, 0⟩, .world⟩, ⟨⟨0⟩, ⟨0, 1, -1, 0, 4, 0⟩, .world⟩]
    (∀ m ∈ ms, c.contains m.key = true ∧ m.transform.determinant ≠ 0) ∧
      (∃ r ch c', m.record? = .ok r ∧ c.move m = .ok c' ∧
        ((Change.transformation r).revert c').result = .ok c ∧
        (Change.transformation r).apply c = ⟨ch, c', none⟩ ∧ (ch.revert c').result = .ok c) ∧
      (∃ rs c', ms.mapM Motion.record? = .ok rs ∧ c.moveAll ms = .ok c' ∧
        c'.takeBackAll rs.reverse = .ok c) ∧
      ¬∃ r, (⟨⟨0⟩, ⟨2, 4, 1, 2, 0, 0⟩, .world⟩ : Motion ℝ).record? = .ok r := by
  intro square c m ms
  have hms : ∀ m ∈ ms, c.contains m.key = true ∧ m.transform.determinant ≠ 0 := by
    simp only [ms, m, List.forall_mem_cons]
    refine ⟨⟨rfl, ?_⟩, ⟨rfl, ?_⟩, ⟨rfl, ?_⟩, nofun⟩ <;> norm_num [Affine.determinant]
  obtain ⟨hlive, hdet⟩ := hms m List.mem_cons_self
  obtain ⟨hrecord, hone, hlist⟩ := @inverses_take_back ℝ (Rect ℝ) _ _
  refine ⟨hms, hone c m hlive hdet, hlist c ms hms, fun hrecorded => ?_⟩
  refine (hrecord _).mp hrecorded ?_
  norm_num [Affine.determinant]

end Canvas

end VectorEditor
