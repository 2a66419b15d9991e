import Mathlib.Algebra.Order.Floor.Ring
import Mathlib.Tactic.Linarith
import Mathlib.Tactic.Ring
import VectorEditor.Interaction.Gesture
import VectorEditor.Proofs.AffineMaps

/-!
# Snapping

`IsNearestMultiple` says to which multiple of a step a value is rounded: one that is at most half a
step away, and of two such the one farther from zero. There is never more than one
(`IsNearestMultiple.unique`), so this is all there is to say of rounding, and the other laws follow
from it. In exact arithmetic, snapping a value is rounding it to a multiple of the spacing
(`Grid.snap_eq_iff`). A drag that translates has its way snapped; one that rotates or scales has its
pointer snapped (`Grid.snapping_takes_nearest_node`).
-/

namespace VectorEditor

/-! ## Nearest multiples -/

section

variable {F : Type} [Field F] [LinearOrder F]

/-- The multiple of a step that a value is rounded to, with ties away from zero. -/
structure IsNearestMultiple (step v s : F) : Prop where
  multiple : ∃ n : ℤ, s = n * step
  near : |s - v| ≤ step / 2
  away : |s - v| = step / 2 → |v| < |s|

namespace IsNearestMultiple

variable {step v w s t : F}

theorem neg (h : IsNearestMultiple step v s) : IsNearestMultiple step (-v) (-s) := by
  have hsub : |-s - -v| = |s - v| := by rw [neg_sub_neg, abs_sub_comm]
  obtain ⟨n, hn⟩ := h.multiple
  refine ⟨⟨-n, ?_⟩, ?_, ?_⟩
  · rw [hn, Int.cast_neg, neg_mul]
  · rw [hsub]
    exact h.near
  · rw [hsub, abs_neg, abs_neg]
    exact h.away

variable [IsStrictOrderedRing F]

theorem of_multiple (hpos : 0 < step) (n : ℤ) : IsNearestMultiple step (n * step) (n * step) := by
  have hzero : |(n * step : F) - n * step| = 0 := by rw [sub_self, abs_zero]
  refine ⟨⟨n, rfl⟩, ?_, fun htie => ?_⟩
  · rw [hzero]
    exact (half_pos hpos).le
  · rw [hzero] at htie
    exact absurd htie (half_pos hpos).ne

theorem step_le_sub (hs : IsNearestMultiple step v s) (ht : IsNearestMultiple step w t)
    (hpos : 0 < step) (hlt : s < t) : step ≤ t - s := by
  obtain ⟨m, rfl⟩ := hs.multiple
  obtain ⟨n, rfl⟩ := ht.multiple
  have hmn : m < n := Int.cast_lt.mp (lt_of_mul_lt_mul_right hlt hpos.le)
  have hone : (1 : F) ≤ n - m := by
    have hgap : (1 : ℤ) ≤ n - m := by omega
    exact_mod_cast hgap
  calc step = 1 * step := (one_mul step).symm
    _ ≤ (n - m) * step := mul_le_mul_of_nonneg_right hone hpos.le
    _ = n * step - m * step := sub_mul _ _ _

theorem step_le_abs_middle (hs : IsNearestMultiple step v s) (hpos : 0 < step) :
    step ≤ |2 * s + step| := by
  obtain ⟨n, rfl⟩ := hs.multiple
  have hodd : (1 : F) ≤ |(2 * n + 1 : F)| := by
    have hne : 2 * n + 1 ≠ 0 := by omega
    have hint : (1 : ℤ) ≤ |2 * n + 1| := Int.one_le_abs hne
    exact_mod_cast hint
  calc step = 1 * step := (one_mul step).symm
    _ ≤ |(2 * n + 1 : F)| * step := mul_le_mul_of_nonneg_right hodd hpos.le
    _ = |(2 * n + 1) * step| := by rw [abs_mul, abs_of_pos hpos]
    _ = |2 * (n * step) + step| := by ring_nf

theorem not_lt (hs : IsNearestMultiple step v s) (ht : IsNearestMultiple step v t)
    (hpos : 0 < step) : ¬s < t := by
  intro hlt
  have happart := hs.step_le_sub ht hpos hlt
  have hs₁ := (abs_le.mp hs.near).1
  have ht₂ := (abs_le.mp ht.near).2
  -- the value is halfway between the two, a tie that each of them has won
  obtain rfl : s = v - step / 2 := by linarith
  obtain rfl : t = v + step / 2 := by linarith
  have hbelow : v ^ 2 < (v - step / 2) ^ 2 := by
    apply sq_lt_sq.mpr
    apply hs.away
    rw [sub_sub_cancel_left, abs_neg, abs_of_pos (half_pos hpos)]
  have habove : v ^ 2 < (v + step / 2) ^ 2 := by
    apply sq_lt_sq.mpr
    apply ht.away
    rw [add_sub_cancel_left, abs_of_pos (half_pos hpos)]
  -- so it is within a quarter of a step from zero, where no tie is
  have hmiddle : step ≤ |2 * v| := by
    have := hs.step_le_abs_middle hpos
    rwa [show 2 * (v - step / 2) + step = 2 * v by ring] at this
  have hsmall : |2 * v| < step := by
    rw [abs_lt]
    constructor
    · nlinarith
    · nlinarith
  exact absurd hmiddle hsmall.not_ge

theorem unique (hs : IsNearestMultiple step v s) (ht : IsNearestMultiple step v t)
    (hpos : 0 < step) : s = t :=
  le_antisymm (le_of_not_gt (ht.not_lt hs hpos)) (le_of_not_gt (hs.not_lt ht hpos))

theorem mono (hs : IsNearestMultiple step v s) (ht : IsNearestMultiple step w t)
    (hpos : 0 < step) (hle : v ≤ w) : s ≤ t := by
  by_contra hlt
  have happart := ht.step_le_sub hs hpos (lt_of_not_ge hlt)
  have hs₂ := (abs_le.mp hs.near).2
  have ht₁ := (abs_le.mp ht.near).1
  obtain rfl : v = w := by linarith
  exact hlt (hs.unique ht hpos).le

/-- Rounding to whole numbers and rounding to multiples of a step are the same but for the scale. -/
theorem scale {x r : F} (h : IsNearestMultiple 1 x r) (hpos : 0 < step) :
    IsNearestMultiple step (x * step) (r * step) := by
  have habs : ∀ y : F, |y * step| = |y| * step := by
    intro y
    rw [abs_mul, abs_of_pos hpos]
  have hsub : |r * step - x * step| = |r - x| * step := by rw [← sub_mul, habs]
  have hhalf : step / 2 = 1 / 2 * step := by ring
  obtain ⟨n, hn⟩ := h.multiple
  refine ⟨⟨n, ?_⟩, ?_, fun htie => ?_⟩
  · rw [hn, mul_one]
  · rw [hsub, hhalf]
    exact mul_le_mul_of_nonneg_right h.near hpos.le
  · rw [hsub, hhalf] at htie
    rw [habs, habs]
    exact mul_lt_mul_of_pos_right (h.away (mul_right_cancel₀ hpos.ne' htie)) hpos

end IsNearestMultiple

end

/-! ## Snapping a value -/

variable {α : Type} [OrderedScalar α]

namespace Grid

variable {g : Grid α}

theorem snap_of_nonpos (hnonpos : g.spacing ≤ 0) (v : α) : g.snap v = v := by
  simp [snap, hnonpos.not_gt]

theorem snap_of_pos (hpos : 0 < g.spacing) (v : α) :
    g.snap v = Scalar.round (v / g.spacing) * g.spacing := by
  simp [snap, hpos]

variable (hround : ∀ x : α, IsNearestMultiple 1 x (Scalar.round x)) (hpos : 0 < g.spacing)

include hround hpos

theorem isNearestMultiple_snap (v : α) : IsNearestMultiple g.spacing v (g.snap v) := by
  have hscaled := (hround (v / g.spacing)).scale hpos
  rw [div_mul_cancel₀ v hpos.ne'] at hscaled
  rw [snap_of_pos hpos]
  exact hscaled

theorem snap_eq_iff (v s : α) : g.snap v = s ↔ IsNearestMultiple g.spacing v s := by
  have hsnap := isNearestMultiple_snap hround hpos v
  constructor
  · rintro rfl
    exact hsnap
  · intro h
    exact hsnap.unique h hpos

theorem snap_snap (v : α) : g.snap (g.snap v) = g.snap v := by
  obtain ⟨n, hn⟩ := (isNearestMultiple_snap hround hpos v).multiple
  rw [snap_eq_iff hround hpos, hn]
  exact .of_multiple hpos n

theorem snap_neg (v : α) : g.snap (-v) = -g.snap v := by
  rw [snap_eq_iff hround hpos]
  exact (isNearestMultiple_snap hround hpos v).neg

theorem monotone_snap : Monotone g.snap := fun v w hle =>
  (isNearestMultiple_snap hround hpos v).mono (isNearestMultiple_snap hround hpos w) hpos hle

theorem snapPoint_snapPoint (p : Point α) : g.snapPoint (g.snapPoint p) = g.snapPoint p :=
  Point.ext (snap_snap hround hpos p.x) (snap_snap hround hpos p.y)

end Grid

/-! ## Snapping in a drag -/

namespace Gesture

variable {g : Gesture α} {grid : Grid α}

theorem translation_of_grid (hgrid : g.grid = some grid) (pointer : Point α) :
    g.translation pointer =
      .translate (g.lock.constrain (grid.snapVec (pointer - g.press))) := by
  rw [translation, hgrid]

theorem snapped_of_grid (hgrid : g.grid = some grid) (pointer : Point α) :
    g.snapped pointer = grid.snapPoint pointer := by
  rw [snapped, hgrid]

theorem rotation_scaling_congr {p q : Point α} (h : g.snapped p = g.snapped q) :
    g.rotation p = g.rotation q ∧ g.scaling p = g.scaling q := by
  constructor
  · rw [rotation, rotation, h]
  · rw [scaling, scaling, h]

end Gesture

namespace Grid

/-- **Snapping takes the nearest node** (`IsNearestMultiple`), for values and for gestures. -/
theorem snapping_takes_nearest_node
    (hround : ∀ x : α, IsNearestMultiple 1 x (Scalar.round x)) (grid : Grid α) :
    (grid.spacing ≤ 0 → ∀ v, grid.snap v = v) ∧
    (0 < grid.spacing →
      (∀ v s, grid.snap v = s ↔ IsNearestMultiple grid.spacing v s) ∧
      (∀ v, grid.snap (grid.snap v) = grid.snap v) ∧ Monotone grid.snap ∧
      (∀ v, grid.snap (-v) = -grid.snap v) ∧
      ∀ (g : Gesture α) (pointer : Point α), g.grid = some grid →
        (∃ offset, g.translation pointer = .translate offset ∧
          (if g.lock.x then offset.x = 0
            else IsNearestMultiple grid.spacing (pointer.x - g.press.x) offset.x) ∧
          (if g.lock.y then offset.y = 0
            else IsNearestMultiple grid.spacing (pointer.y - g.press.y) offset.y)) ∧
        (∀ other, grid.snapPoint other = grid.snapPoint pointer →
          g.rotation other = g.rotation pointer ∧ g.scaling other = g.scaling pointer) ∧
        g.rotation (grid.snapPoint pointer) = g.rotation pointer ∧
        g.scaling (grid.snapPoint pointer) = g.scaling pointer) := by
  refine ⟨fun hnonpos => snap_of_nonpos hnonpos, fun hpos => ⟨snap_eq_iff hround hpos,
    snap_snap hround hpos, monotone_snap hround hpos, snap_neg hround hpos,
    fun g pointer hgrid => ⟨?_, fun other hsame => ?_, ?_⟩⟩⟩
  · have hsnap := isNearestMultiple_snap hround hpos
    refine ⟨_, Gesture.translation_of_grid hgrid pointer, ?_, ?_⟩
    · cases hx : g.lock.x with
      | true => simp [AxisLock.constrain, hx]
      | false =>
        simp only [AxisLock.constrain, hx, Bool.false_eq_true, if_false]
        exact hsnap (pointer - g.press).x
    · cases hy : g.lock.y with
      | true => simp [AxisLock.constrain, hy]
      | false =>
        simp only [AxisLock.constrain, hy, Bool.false_eq_true, if_false]
        exact hsnap (pointer - g.press).y
  · apply Gesture.rotation_scaling_congr
    rw [Gesture.snapped_of_grid hgrid, Gesture.snapped_of_grid hgrid, hsame]
  · apply Gesture.rotation_scaling_congr
    rw [Gesture.snapped_of_grid hgrid, Gesture.snapped_of_grid hgrid,
      snapPoint_snapPoint hround hpos]

end Grid

/-- The real numbers are rounded in this way. -/
theorem isNearestMultiple_round (x : ℝ) : IsNearestMultiple 1 x (Scalar.round x) := by
  by_cases hx : 0 ≤ x
  · have hround : Scalar.round x = (⌊x + 1 / 2⌋ : ℝ) := if_pos hx
    have hlow := Int.floor_le (x + 1 / 2)
    have hhigh := Int.lt_floor_add_one (x + 1 / 2)
    rw [hround]
    refine ⟨⟨_, (mul_one _).symm⟩, ?_, fun htie => ?_⟩
    · rw [abs_le]
      constructor <;> linarith
    · rcases eq_or_eq_neg_of_abs_eq htie with hup | hdown
      · rw [abs_of_nonneg hx, abs_of_nonneg] <;> linarith
      · linarith
  · have hround : Scalar.round x = (⌈x - 1 / 2⌉ : ℝ) := if_neg hx
    have hlow := Int.le_ceil (x - 1 / 2)
    have hhigh := Int.ceil_lt_add_one (x - 1 / 2)
    have hneg : x < 0 := not_le.mp hx
    rw [hround]
    refine ⟨⟨_, (mul_one _).symm⟩, ?_, fun htie => ?_⟩
    · rw [abs_le]
      constructor <;> linarith
    · rcases eq_or_eq_neg_of_abs_eq htie with hup | hdown
      · linarith
      · rw [abs_of_neg hneg, abs_of_neg] <;> linarith

theorem Grid.snapping_takes_nearest_node_tied :
    let grid : Grid ℝ := ⟨60, 2⟩
    let g : Gesture ℝ := ⟨⟨1, 2⟩, ⟨0, 0⟩, ⟨true, false⟩, some grid⟩
    0 < grid.spacing ∧ grid.snap 30 = 40 ∧ grid.snap (-30) = -40 ∧
      (∃ offset, g.translation ⟨100, 39⟩ = .translate offset ∧ offset.x = 0 ∧
        |offset.y - 37| ≤ 10) ∧
      g.rotation ⟨30, -30⟩ = g.rotation ⟨40, -40⟩ := by
  intro grid g
  have hspacing : grid.spacing = 20 := by
    rw [spacing, ExactScalar.ofNat_eq_cast, Scalar.numeral_one, div_eq_iff] <;> norm_num [grid]
  have hpos : 0 < grid.spacing := by
    rw [hspacing]
    norm_num
  obtain ⟨-, hsnapping⟩ := snapping_takes_nearest_node isNearestMultiple_round grid
  obtain ⟨hsnap, -, -, hodd, hdrag⟩ := hsnapping hpos
  have htie : grid.snap 30 = 40 := by
    rw [hsnap, hspacing]
    refine ⟨⟨2, ?_⟩, ?_, fun _ => ?_⟩ <;> norm_num
  have htie' : grid.snap (-30) = -40 := by rw [hodd, htie]
  obtain ⟨⟨offset, htranslation, hx, hy⟩, -, -⟩ := hdrag g ⟨100, 39⟩ rfl
  obtain ⟨-, -, hnode, -⟩ := hdrag g ⟨30, -30⟩ rfl
  have hcorner : grid.snapPoint ⟨30, -30⟩ = ⟨40, -40⟩ := Point.ext htie htie'
  refine ⟨hpos, htie, htie', ⟨offset, htranslation, hx, ?_⟩, ?_⟩
  · have hnear := hy.near
    rw [hspacing] at hnear
    norm_num [g] at hnear ⊢
    exact hnear
  · rw [← hcorner, hnode]

end VectorEditor
