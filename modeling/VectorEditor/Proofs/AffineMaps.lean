import Mathlib.Tactic.FieldSimp
import Mathlib.Tactic.LinearCombination
import VectorEditor.Geometry.Affine
import VectorEditor.Proofs.ExactScalar

/-!
# Transforms as maps of the plane

In exact arithmetic the transforms are what their coefficients stand for: composing them composes
the maps (`Affine.apply_mul`), so they form a monoid, and those whose determinant is not zero have
an inverse on both sides (`Affine.mul_inverse`, `Affine.inverse_mul`). The editor finds an inverse
for these and for no others (`Affine.inverse?_eq_ok`, `Affine.inverse?_eq_error`).
-/

namespace VectorEditor

variable {α : Type}

instance [BEq α] [LawfulBEq α] : LawfulBEq (Vec α) where
  eq_of_beq {v w} h := by
    obtain ⟨hx, hy⟩ := Bool.and_eq_true_iff.mp h
    exact Vec.ext (eq_of_beq hx) (eq_of_beq hy)
  rfl {v} := Bool.and_eq_true_iff.mpr ⟨beq_self_eq_true v.x, beq_self_eq_true v.y⟩

/-! ## Coordinates -/

section coordinates

variable [Scalar α]

namespace Vec

@[simp] theorem add_x (v w : Vec α) : (v + w).x = v.x + w.x := rfl

@[simp] theorem add_y (v w : Vec α) : (v + w).y = v.y + w.y := rfl

@[simp] theorem neg_x (v : Vec α) : (-v).x = -v.x := rfl

@[simp] theorem neg_y (v : Vec α) : (-v).y = -v.y := rfl

end Vec

namespace Point

@[simp] theorem add_x (p : Point α) (v : Vec α) : (p + v).x = p.x + v.x := rfl

@[simp] theorem add_y (p : Point α) (v : Vec α) : (p + v).y = p.y + v.y := rfl

@[simp] theorem sub_x (p q : Point α) : (p - q).x = p.x - q.x := rfl

@[simp] theorem sub_y (p q : Point α) : (p - q).y = p.y - q.y := rfl

end Point

end coordinates

namespace Affine

instance [BEq α] [LawfulBEq α] : LawfulBEq (Affine α) where
  eq_of_beq {s t} h := by
    simp only [BEq.beq, Bool.and_eq_true] at h
    obtain ⟨⟨⟨⟨⟨ha, hb⟩, hc⟩, hd⟩, he⟩, hf⟩ := h
    exact Affine.ext (eq_of_beq ha) (eq_of_beq hb) (eq_of_beq hc) (eq_of_beq hd) (eq_of_beq he)
      (eq_of_beq hf)
  rfl {t} := by
    simp [BEq.beq]

theorem mul_eq [Scalar α] (s t : Affine α) :
    s * t = ⟨s.a * t.a + s.c * t.b, s.b * t.a + s.d * t.b,
      s.a * t.c + s.c * t.d, s.b * t.c + s.d * t.d,
      s.a * t.e + s.c * t.f + s.e, s.b * t.e + s.d * t.f + s.f⟩ := rfl

variable [ExactScalar α]

/-! ## Composition -/

@[simp] theorem apply_mul (s t : Affine α) (p : Point α) :
    (s * t).apply p = s.apply (t.apply p) := by
  ext <;> simp only [mul_eq, apply] <;> ring

@[simp] theorem apply_identity (p : Point α) : identity.apply p = p := by
  ext <;> simp [identity, apply]

theorem apply_translate (v : Vec α) (p : Point α) :
    (translate v).apply p = ⟨p.x + v.x, p.y + v.y⟩ := by
  ext <;> simp [translate, apply]

instance : Monoid (Affine α) where
  one := identity
  mul_assoc s t u := by
    ext <;> simp only [mul_eq] <;> ring
  one_mul t := by
    show identity * t = t
    ext <;> simp [mul_eq, identity]
  mul_one t := by
    show t * identity = t
    ext <;> simp [mul_eq, identity]

theorem identity_eq_one : (identity : Affine α) = 1 := rfl

theorem apply_about (t : Affine α) (pivot p : Point α) :
    (t.about pivot).apply p =
      t.apply ⟨p.x - pivot.x, p.y - pivot.y⟩ + pivot.toVec := by
  simp only [about, apply_mul, apply_translate, Vec.neg_x, Vec.neg_y, Point.toVec,
    ← sub_eq_add_neg]
  rfl

theorem apply_rotateAbout (theta : α) (pivot p : Point α) :
    (rotateAbout theta pivot).apply p =
      ⟨Scalar.cos theta * (p.x - pivot.x) - Scalar.sin theta * (p.y - pivot.y) + pivot.x,
        Scalar.sin theta * (p.x - pivot.x) + Scalar.cos theta * (p.y - pivot.y) + pivot.y⟩ := by
  rw [rotateAbout, apply_about]
  ext <;> simp [rotate, apply, Point.toVec, sub_eq_add_neg]

theorem apply_scaleAbout (sx sy : α) (pivot p : Point α) :
    (scaleAbout sx sy pivot).apply p =
      ⟨sx * (p.x - pivot.x) + pivot.x, sy * (p.y - pivot.y) + pivot.y⟩ := by
  rw [scaleAbout, apply_about]
  ext <;> simp [scale, apply, Point.toVec]

/-! ## Determinants -/

theorem determinant_mul (s t : Affine α) :
    (s * t).determinant = s.determinant * t.determinant := by
  simp only [determinant, mul_eq]
  ring

@[simp] theorem determinant_identity : (identity : Affine α).determinant = 1 := by
  simp [determinant, identity]

@[simp] theorem determinant_translate (v : Vec α) : (translate v).determinant = 1 := by
  simp [determinant, translate]

@[simp] theorem determinant_scale (sx sy : α) : (scale sx sy).determinant = sx * sy := by
  simp [determinant, scale]

@[simp] theorem determinant_about (t : Affine α) (pivot : Point α) :
    (t.about pivot).determinant = t.determinant := by
  simp [about, determinant_mul]

/-! ## Inverses -/

theorem mul_inverse {t : Affine α} (h : t.determinant ≠ 0) : t * t.inverse = 1 := by
  have hdet : t.a * t.d - t.b * t.c ≠ 0 := h
  rw [← identity_eq_one]
  ext <;> simp only [mul_eq, inverse, identity, determinant, Scalar.numeral_one,
    Scalar.numeral_zero] <;> field_simp <;> ring

theorem inverse_mul {t : Affine α} (h : t.determinant ≠ 0) : t.inverse * t = 1 := by
  have hdet : t.a * t.d - t.b * t.c ≠ 0 := h
  rw [← identity_eq_one]
  ext <;> simp only [mul_eq, inverse, identity, determinant, Scalar.numeral_one,
    Scalar.numeral_zero] <;> field_simp <;> ring

theorem apply_inverse_apply {t : Affine α} (h : t.determinant ≠ 0) (p : Point α) :
    t.apply (t.inverse.apply p) = p := by
  rw [← apply_mul, mul_inverse h, ← identity_eq_one, apply_identity]

theorem inverse_apply_apply {t : Affine α} (h : t.determinant ≠ 0) (p : Point α) :
    t.inverse.apply (t.apply p) = p := by
  rw [← apply_mul, inverse_mul h, ← identity_eq_one, apply_identity]

theorem isInvertible_iff {t : Affine α} : t.isInvertible = true ↔ t.determinant ≠ 0 := by
  simp [isInvertible]

theorem inverse?_eq_ok {t : Affine α} (h : t.determinant ≠ 0) : t.inverse? = .ok t.inverse := by
  rw [inverse?, if_pos (isInvertible_iff.mpr h)]

theorem inverse?_eq_error {t : Affine α} (h : t.determinant = 0) : t.inverse? = .error ⟨0⟩ := by
  have hsingular : ¬t.isInvertible = true := by
    rw [isInvertible_iff, not_not]
    exact h
  rw [inverse?, if_neg hsingular, h]

theorem exists_inverse?_eq_error_iff {t : Affine α} :
    (∃ err, t.inverse? = .error err) ↔ t.determinant = 0 := by
  constructor
  · rintro ⟨err, herr⟩
    by_contra hdet
    rw [inverse?_eq_ok hdet] at herr
    cases herr
  · exact fun h => ⟨_, inverse?_eq_error h⟩

end Affine

end VectorEditor
