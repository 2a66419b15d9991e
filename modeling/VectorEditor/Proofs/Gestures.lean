import Mathlib.Tactic.LinearCombination
import VectorEditor.Editor.Basic
import VectorEditor.Proofs.AffineMaps
import VectorEditor.Proofs.Phases

/-!
# Rotating and scaling

A drag that rotates or scales does so about the anchor. In exact arithmetic, whatever the grid makes
of the pointer, both keep the anchor where it is, and a rotation keeps all distances
(`Gesture.rotation_rigid`). A scaling leaves locked axes alone, and with none locked it takes the
press to the pointer's projection on the line of the drag (`Gesture.isFoot_iff`). A rotation can
always be taken back. A scaling cannot if it flattens the plane (`Gesture.Flattens`), and these are
the drags whose release the editor refuses.
-/

namespace VectorEditor

variable {α : Type}

/-! ## Lengths and projections -/

theorem Vec.normSq_eq_zero_iff [OrderedScalar α] {v : Vec α} :
    v.normSq = 0 ↔ v.x = 0 ∧ v.y = 0 :=
  mul_self_add_mul_self_eq_zero

theorem Point.normSq_sub_eq_zero_iff [OrderedScalar α] {p q : Point α} :
    (p - q).normSq = 0 ↔ p = q := by
  rw [Vec.normSq_eq_zero_iff, sub_x, sub_y, sub_eq_zero, sub_eq_zero, Point.ext_iff]

theorem Point.normSq_sub_ne_zero [OrderedScalar α] {p q : Point α} (h : p ≠ q) :
    (p - q).normSq ≠ 0 :=
  mt normSq_sub_eq_zero_iff.mp h

/-- The foot of the perpendicular from `p` on the line through `o` and `q`. -/
structure Point.IsFoot [ExactScalar α] (foot p o q : Point α) : Prop where
  on_line : ∃ k, foot = o + (q - o).scale k
  perpendicular : (p - foot).dot (q - o) = 0

theorem Point.isFoot_iff [OrderedScalar α] {o q : Point α} (h : q ≠ o) (foot p : Point α) :
    foot.IsFoot p o q ↔ foot = o + (q - o).scale ((p - o).dot (q - o) / (q - o).normSq) := by
  have hne : (q - o).normSq ≠ 0 := normSq_sub_ne_zero h
  -- how far across a point of the line is from `p`
  have hacross : ∀ k, (p - (o + (q - o).scale k)).dot (q - o) =
      (p - o).dot (q - o) - k * (q - o).normSq := by
    intro k
    simp only [Vec.normSq, Vec.dot, Vec.scale, add_x, add_y, sub_x, sub_y]
    ring
  constructor
  · rintro ⟨⟨k, rfl⟩, hperpendicular⟩
    rw [hacross, sub_eq_zero] at hperpendicular
    rw [hperpendicular, mul_div_cancel_right₀ _ hne]
  · rintro rfl
    refine ⟨⟨_, rfl⟩, ?_⟩
    rw [hacross, div_mul_cancel₀ _ hne, sub_self]

/-! ## Turning and stretching about a point -/

namespace Affine

variable [ExactScalar α]

theorem rotateAbout_pivot (theta : α) (pivot : Point α) :
    (rotateAbout theta pivot).apply pivot = pivot := by
  ext <;> simp [apply_rotateAbout]

theorem scaleAbout_pivot (sx sy : α) (pivot : Point α) :
    (scaleAbout sx sy pivot).apply pivot = pivot := by
  ext <;> simp [apply_scaleAbout]

theorem scaleAbout_one (pivot : Point α) : scaleAbout 1 1 pivot = identity := by
  ext <;> simp [scaleAbout, about, mul_eq, translate, scale, identity, Point.toVec]

variable {theta : α}
  (hcircle : Scalar.cos theta * Scalar.cos theta + Scalar.sin theta * Scalar.sin theta = 1)

include hcircle

theorem determinant_rotateAbout (pivot : Point α) : (rotateAbout theta pivot).determinant = 1 := by
  rw [rotateAbout, determinant_about]
  simp only [determinant, rotate]
  linear_combination hcircle

theorem normSq_rotateAbout (pivot p q : Point α) :
    ((rotateAbout theta pivot).apply p - (rotateAbout theta pivot).apply q).normSq =
      (p - q).normSq := by
  simp only [apply_rotateAbout, Vec.normSq, Vec.dot, Point.sub_x, Point.sub_y]
  linear_combination ((p.x - q.x) ^ 2 + (p.y - q.y) ^ 2) * hcircle

end Affine

namespace Gesture

/-! ## Rotations -/

variable [OrderedScalar α] (g : Gesture α) (pointer : Point α)

theorem rotation_cases :
    g.rotation pointer = .identity ∨ ∃ theta, g.rotation pointer = .rotateAbout theta g.anchor := by
  rw [rotation]
  split
  · exact .inl rfl
  · exact .inr ⟨_, rfl⟩

theorem rotation_rigid
    (hcircle : ∀ theta : α,
      Scalar.cos theta * Scalar.cos theta + Scalar.sin theta * Scalar.sin theta = 1) :
    (g.rotation pointer).apply g.anchor = g.anchor ∧
    (∀ p q, ((g.rotation pointer).apply p - (g.rotation pointer).apply q).normSq =
      (p - q).normSq) ∧
    (g.rotation pointer).determinant = 1 := by
  rcases g.rotation_cases pointer with hrotation | ⟨theta, hrotation⟩
  · simp [hrotation]
  · rw [hrotation]
    exact ⟨Affine.rotateAbout_pivot _ _, Affine.normSq_rotateAbout (hcircle theta) _,
      Affine.determinant_rotateAbout (hcircle theta) _⟩

/-! ## Scalings -/

/-- How far along the way from the anchor to the press the pointer is. -/
def factor : α :=
  (g.snapped pointer - g.anchor).dot (g.press - g.anchor) / (g.press - g.anchor).normSq

/-- The scaling crushes the plane: it has a direction, an axis to act along, and the pointer is
straight across from the anchor. -/
structure Flattens : Prop where
  apart : g.press ≠ g.anchor
  unlocked : g.lock.x = false ∨ g.lock.y = false
  across : (g.snapped pointer - g.anchor).dot (g.press - g.anchor) = 0

variable {g}

theorem scaling_of_eq (h : g.press = g.anchor) : g.scaling pointer = .identity := by
  have hzero : (g.press - g.anchor).normSq = 0 := Point.normSq_sub_eq_zero_iff.mpr h
  simp [scaling, hzero]

theorem scaling_of_ne (h : g.press ≠ g.anchor) :
    g.scaling pointer = .scaleAbout (g.lock.scaleFactors (g.factor pointer)).1
      (g.lock.scaleFactors (g.factor pointer)).2 g.anchor := by
  simp [scaling, factor, Point.normSq_sub_ne_zero h]

variable (g)

theorem exists_scaling_eq : ∃ sx sy, g.scaling pointer = .scaleAbout sx sy g.anchor ∧
    (g.lock.x = true → sx = 1) ∧ (g.lock.y = true → sy = 1) := by
  by_cases h : g.press = g.anchor
  · refine ⟨1, 1, ?_, fun _ => rfl, fun _ => rfl⟩
    rw [scaling_of_eq pointer h, Affine.scaleAbout_one]
  · refine ⟨_, _, scaling_of_ne pointer h, fun hx => ?_, fun hy => ?_⟩
    · simp [AxisLock.scaleFactors, hx]
    · simp [AxisLock.scaleFactors, hy]

variable {g}

theorem factor_eq_zero_iff (h : g.press ≠ g.anchor) :
    g.factor pointer = 0 ↔ (g.snapped pointer - g.anchor).dot (g.press - g.anchor) = 0 := by
  rw [factor, div_eq_zero_iff, or_iff_left (Point.normSq_sub_ne_zero h)]

theorem determinant_scaling_eq_zero_iff :
    (g.scaling pointer).determinant = 0 ↔ g.Flattens pointer := by
  by_cases h : g.press = g.anchor
  · rw [scaling_of_eq pointer h, Affine.determinant_identity]
    exact ⟨fun hzero => absurd hzero one_ne_zero, fun hflat => absurd h hflat.apart⟩
  · have hdet : (g.scaling pointer).determinant =
        (if g.lock.x then 1 else g.factor pointer) * (if g.lock.y then 1 else g.factor pointer) := by
      simp [scaling_of_ne pointer h, Affine.scaleAbout, AxisLock.scaleFactors]
    rw [hdet]
    constructor
    · intro hzero
      cases hx : g.lock.x <;> cases hy : g.lock.y <;>
        simp only [hx, hy, Bool.false_eq_true, if_true, if_false, mul_one, one_mul, one_ne_zero,
          mul_self_eq_zero, factor_eq_zero_iff pointer h] at hzero
      · exact ⟨h, .inl hx, hzero⟩
      · exact ⟨h, .inl hx, hzero⟩
      · exact ⟨h, .inr hy, hzero⟩
    · intro hflat
      rw [(factor_eq_zero_iff pointer h).mpr hflat.across]
      rcases hflat.unlocked with hx | hy
      · simp [hx]
      · simp [hy]

/-- With no axis locked, `scaling` takes the press to the pointer's projection. -/
theorem isFoot_iff (hlock : g.lock = .free) (h : g.press ≠ g.anchor) (foot : Point α) :
    foot.IsFoot (g.snapped pointer) g.anchor g.press ↔
      foot = (g.scaling pointer).apply g.press := by
  have himage : (g.scaling pointer).apply g.press =
      g.anchor + (g.press - g.anchor).scale (g.factor pointer) := by
    rw [scaling_of_ne pointer h, hlock, Affine.apply_scaleAbout]
    ext <;> simp only [AxisLock.scaleFactors, AxisLock.free, Vec.scale, Point.add_x, Point.add_y,
      Point.sub_x, Point.sub_y, Bool.false_eq_true, if_false] <;> ring
  rw [himage, Point.isFoot_iff h, factor]

end Gesture

/-! ## Commits -/

namespace Editor

variable {T : Type} [OrderedScalar α] [Region α T]

theorem commit_answer_ne_singular (e : Editor α T) (ch : Change α T) (withBefore : Bool)
    (err : Singular α) : (e.commit ch withBefore).answer ≠ .error (.singular err) := by
  rw [commit]
  split <;> nofun

theorem commitTransform_of_singular (e : Editor α T) (k : Key) {t : Affine α} (frame : Frame)
    (h : t.determinant = 0) :
    e.commitTransform k t frame =
      { answer := .error (.singular ⟨0⟩), editor := e, log := [.rejected k ⟨0⟩] } := by
  have hidentity : ¬t.isIdentity = true := by
    intro hidentity
    rw [eq_of_beq hidentity, Affine.determinant_identity] at h
    exact one_ne_zero h
  rw [commitTransform, if_neg hidentity, Transformation.new?, Affine.inverse?_eq_error h]
  rfl

theorem commitTransform_ne_singular (e : Editor α T) (k : Key) {t : Affine α} (frame : Frame)
    (h : t.determinant ≠ 0) (err : Singular α) :
    (e.commitTransform k t frame).answer ≠ .error (.singular err) := by
  rw [commitTransform, Transformation.new?, Affine.inverse?_eq_ok h]
  split
  · nofun
  · intro hanswer
    simp only [Except.map, Reply.map] at hanswer
    split at hanswer
    · rename_i err' herr
      cases hanswer
      exact commit_answer_ne_singular _ _ _ _ herr
    · cases hanswer

theorem release_singular_iff {e : Editor α T} {kind : DragKind} {t : Affine α} {g : Gesture α}
    {k : Key} (hphase : e.interaction.phase = .dragging kind t)
    (hgesture : e.interaction.gesture = some g) (hkey : e.interaction.selected = some k)
    (p : Point α) :
    ((∃ err, (e.release p).answer = .error (.singular err)) ↔
      (g.tentative kind p).determinant = 0) ∧
    ((g.tentative kind p).determinant = 0 →
      (e.release p).editor = { e with interaction := e.interaction.cancel }) := by
  have hrelease := Interaction.release_of_dragging hphase hgesture hkey p
  simp only [release, hrelease, track, Reply.bind]
  by_cases hdet : (g.tentative kind p).determinant = 0
  · rw [commitTransform_of_singular _ _ _ hdet]
    exact ⟨⟨fun _ => hdet, fun _ => ⟨_, rfl⟩⟩, fun _ => rfl⟩
  · refine ⟨⟨fun ⟨err, herr⟩ => ?_, fun hzero => absurd hzero hdet⟩, fun hzero => absurd hzero hdet⟩
    split at herr
    · cases herr
    · exact absurd herr (commitTransform_ne_singular _ _ _ hdet err)

end Editor

namespace Gesture

variable {T : Type} [OrderedScalar α] [Region α T]

/-- **Rotations and scalings keep the anchor and obey the locks.** -/
theorem keeps_anchor_and_locks
    (hcircle : ∀ theta : α,
      Scalar.cos theta * Scalar.cos theta + Scalar.sin theta * Scalar.sin theta = 1)
    (g : Gesture α) (pointer : Point α) :
    let rotation := g.rotation pointer
    let scaling := g.scaling pointer
    (rotation.apply g.anchor = g.anchor ∧ scaling.apply g.anchor = g.anchor) ∧
    (∀ p q, (rotation.apply p - rotation.apply q).normSq = (p - q).normSq) ∧
    (∃ back, rotation.inverse? = .ok back ∧
      ∀ p, back.apply (rotation.apply p) = p ∧ rotation.apply (back.apply p) = p) ∧
    (∀ p, (g.lock.x = true → (scaling.apply p).x = p.x) ∧
      (g.lock.y = true → (scaling.apply p).y = p.y)) ∧
    (g.lock = .free → g.press ≠ g.anchor → ∀ foot : Point α,
      foot.IsFoot (g.snapped pointer) g.anchor g.press ↔ foot = scaling.apply g.press) ∧
    ((∃ err, scaling.inverse? = .error err) ↔ g.Flattens pointer) ∧
    ∀ (e : Editor α T) (t : Affine α) (k : Key), e.interaction.phase = .dragging .scale t →
      e.interaction.gesture = some g → e.interaction.selected = some k →
      ((∃ err, (e.release pointer).answer = .error (.singular err)) ↔ g.Flattens pointer) ∧
      (g.Flattens pointer →
        (e.release pointer).editor = { e with interaction := e.interaction.cancel }) := by
  intro rotation scaling
  obtain ⟨sx, sy, hscaling, hx, hy⟩ := g.exists_scaling_eq pointer
  obtain ⟨hpivot, hdistance, hdet⟩ := g.rotation_rigid pointer hcircle
  have hne : rotation.determinant ≠ 0 := by
    rw [hdet]
    exact one_ne_zero
  refine ⟨⟨hpivot, ?_⟩, hdistance, ?_, fun p => ?_, fun hlock h => isFoot_iff pointer hlock h, ?_,
    fun e t k hphase hgesture hkey => ?_⟩
  · simp only [scaling, hscaling, Affine.scaleAbout_pivot]
  · exact ⟨_, Affine.inverse?_eq_ok hne, fun p =>
      ⟨Affine.inverse_apply_apply hne p, Affine.apply_inverse_apply hne p⟩⟩
  · simp only [scaling, hscaling, Affine.apply_scaleAbout]
    exact ⟨fun hlock => by rw [hx hlock, one_mul, sub_add_cancel],
      fun hlock => by rw [hy hlock, one_mul, sub_add_cancel]⟩
  · rw [← determinant_scaling_eq_zero_iff, Affine.exists_inverse?_eq_error_iff]
  · rw [← determinant_scaling_eq_zero_iff]
    exact Editor.release_singular_iff hphase hgesture hkey pointer

theorem keeps_anchor_and_locks_across :
    let idle : Interaction ℝ Key :=
      { Interaction.ofView default with
        mode := .drag .scale, anchorMode := .custom ⟨1, 1⟩, lock := ⟨false, true⟩ }
    let ix := (idle.press ⟨3, 4⟩ (some ⟨⟨0⟩, ⟨0, 0, 3, 4⟩⟩)).2
    let e : Editor ℝ (Rect ℝ) := { Editor.ofSettings default with interaction := ix }
    let g : Gesture ℝ := ⟨⟨3, 4⟩, ⟨1, 1⟩, ⟨false, true⟩, none⟩
    ix.gesture = some g ∧ g.Flattens ⟨4, -1⟩ ∧
      (∃ err, (g.scaling ⟨4, -1⟩).inverse? = .error err) ∧
      (∃ err, (e.release ⟨4, -1⟩).answer = .error (.singular err)) ∧
      (∀ p, ((g.scaling ⟨4, -1⟩).apply p).y = p.y) ∧
      ({ g with lock := .free }.scaling ⟨4, -1⟩).apply ⟨3, 4⟩ = ⟨1, 1⟩ := by
  intro idle ix e g
  have hcircle : ∀ theta : ℝ,
      Scalar.cos theta * Scalar.cos theta + Scalar.sin theta * Scalar.sin theta = 1 := by
    intro theta
    rw [← sq, ← sq]
    exact Real.cos_sq_add_sin_sq theta
  have hapart : (⟨3, 4⟩ : Point ℝ) ≠ ⟨1, 1⟩ := by
    simp [Point.ext_iff]
  have hflat : g.Flattens ⟨4, -1⟩ := by
    refine ⟨hapart, .inl rfl, ?_⟩
    norm_num [g, snapped, Vec.dot]
  have hfoot : (⟨1, 1⟩ : Point ℝ).IsFoot ⟨4, -1⟩ ⟨1, 1⟩ ⟨3, 4⟩ := by
    refine ⟨⟨0, ?_⟩, ?_⟩
    · ext <;> simp [Vec.scale]
    · norm_num [Vec.dot]
  obtain ⟨-, -, -, hlocked, -, hsingular, hrelease⟩ :=
    @keeps_anchor_and_locks ℝ (Rect ℝ) _ _ hcircle g ⟨4, -1⟩
  obtain ⟨-, -, -, -, hprojection, -⟩ :=
    @keeps_anchor_and_locks ℝ (Rect ℝ) _ _ hcircle { g with lock := .free } ⟨4, -1⟩
  refine ⟨rfl, hflat, hsingular.mpr hflat, (hrelease e _ ⟨0⟩ rfl rfl rfl).1.mpr hflat,
    fun p => (hlocked p).2 rfl, ?_⟩
  exact ((hprojection rfl hapart _).mp hfoot).symm

end Gesture

end VectorEditor
