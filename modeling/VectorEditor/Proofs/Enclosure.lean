import Mathlib.Algebra.Order.Ring.Abs
import Mathlib.Tactic.Linarith
import VectorEditor.Editor.Basic
import VectorEditor.Proofs.AffineMaps
import VectorEditor.Proofs.Picking

/-!
# Picking within bounds

An object is picked by asking whether its item covers the point that its transform takes to the
pointer. The rectangle around the object is found the other way round, from the images of the four
corners of the rectangle around the item. In exact arithmetic the two agree: the image of a
rectangle lies within the extremes of its corners (`Rect.contains_mapRect`), so where the item keeps
within its own rectangle, the object does (`Drawable.worldBounds_contains`). Rectangles, circles and
stroked lines keep within theirs, whichever way they are turned. So the pointer is in the rectangle
around what it picks, as long as no key stands for two objects.
-/

namespace VectorEditor

variable {α : Type} [OrderedScalar α]

/-! ## Rectangles -/

theorem Rect.contains_iff {r : Rect α} {p : Point α} :
    r.contains p = true ↔ (r.x0 ≤ p.x ∧ p.x ≤ r.x1) ∧ r.y0 ≤ p.y ∧ p.y ≤ r.y1 := by
  simp only [contains, Bool.and_eq_true, decide_eq_true_eq, and_assoc]

theorem Rect.ofPoints_eq (p q : Point α) :
    Rect.ofPoints p q = ⟨min p.x q.x, min p.y q.y, max p.x q.x, max p.y q.y⟩ := by
  simp only [ofPoints, abs, minX, minY, maxX, maxY, Scalar.min_eq_min, Scalar.max_eq_max]

theorem mul_between_ends {lo hi x : α} (k : α) (hlo : lo ≤ x) (hhi : x ≤ hi) :
    (k * lo ≤ k * x ∧ k * x ≤ k * hi) ∨ (k * hi ≤ k * x ∧ k * x ≤ k * lo) := by
  rcases le_total 0 k with hk | hk
  · exact .inl ⟨mul_le_mul_of_nonneg_left hlo hk, mul_le_mul_of_nonneg_left hhi hk⟩
  · exact .inr ⟨mul_le_mul_of_nonpos_left hhi hk, mul_le_mul_of_nonpos_left hlo hk⟩

/-- Which corners are the extremes depends on the directions in which the coordinate grows. -/
theorem between_corners {x0 x1 y0 y1 x y : α} (k l m : α) (hx : x0 ≤ x ∧ x ≤ x1)
    (hy : y0 ≤ y ∧ y ≤ y1) :
    min (min (k * x0 + l * y0 + m) (k * x0 + l * y1 + m))
        (min (k * x1 + l * y0 + m) (k * x1 + l * y1 + m)) ≤ k * x + l * y + m ∧
      k * x + l * y + m ≤
        max (max (k * x0 + l * y0 + m) (k * x0 + l * y1 + m))
          (max (k * x1 + l * y0 + m) (k * x1 + l * y1 + m)) := by
  simp only [min_le_iff, le_max_iff, add_le_add_iff_right]
  rcases mul_between_ends k hx.1 hx.2 with ⟨hxlo, hxhi⟩ | ⟨hxlo, hxhi⟩ <;>
    rcases mul_between_ends l hy.1 hy.2 with ⟨hylo, hyhi⟩ | ⟨hylo, hyhi⟩
  · exact ⟨.inl (.inl (add_le_add hxlo hylo)), .inr (.inr (add_le_add hxhi hyhi))⟩
  · exact ⟨.inl (.inr (add_le_add hxlo hylo)), .inr (.inl (add_le_add hxhi hyhi))⟩
  · exact ⟨.inr (.inl (add_le_add hxlo hylo)), .inl (.inr (add_le_add hxhi hyhi))⟩
  · exact ⟨.inr (.inr (add_le_add hxlo hylo)), .inl (.inl (add_le_add hxhi hyhi))⟩

theorem Rect.contains_mapRect {r : Rect α} {p : Point α} (t : Affine α)
    (h : r.contains p = true) : (t.mapRect r).contains (t.apply p) = true := by
  obtain ⟨hx, hy⟩ := contains_iff.mp h
  rw [contains_iff]
  simp only [Affine.mapRect, union, ofPoints_eq, Affine.apply, Scalar.min_eq_min,
    Scalar.max_eq_max]
  exact ⟨between_corners t.a t.c t.e hx hy, between_corners t.b t.d t.f hx hy⟩

/-! ## Distances -/

theorem Vec.abs_le_of_normSq_le {v : Vec α} {r : α} (h : v.normSq ≤ r * r) :
    |v.x| ≤ |r| ∧ |v.y| ≤ |r| := by
  rw [abs_le_iff_mul_self_le, abs_le_iff_mul_self_le]
  exact ⟨(le_add_of_nonneg_right (mul_self_nonneg v.y)).trans h,
    (le_add_of_nonneg_left (mul_self_nonneg v.x)).trans h⟩

theorem Rect.contains_inflate {r : Rect α} {p q : Point α} {w : α} (hq : r.contains q = true)
    (hnear : (p - q).normSq ≤ w * w) : (r.inflate |w|).contains p = true := by
  obtain ⟨⟨hx0, hx1⟩, hy0, hy1⟩ := contains_iff.mp hq
  obtain ⟨hx, hy⟩ := Vec.abs_le_of_normSq_le hnear
  rw [Point.sub_x, abs_le] at hx
  rw [Point.sub_y, abs_le] at hy
  rw [contains_iff]
  simp only [inflate]
  exact ⟨⟨by linarith, by linarith⟩, by linarith, by linarith⟩

theorem lerp_between {a b t : α} (ht0 : 0 ≤ t) (ht1 : t ≤ 1) :
    min a b ≤ a + (b - a) * t ∧ a + (b - a) * t ≤ max a b := by
  rw [min_le_iff, le_max_iff]
  rcases mul_between_ends (b - a) ht0 ht1 with ⟨hlo, hhi⟩ | ⟨hlo, hhi⟩
  · exact ⟨.inl (by linarith), .inr (by linarith)⟩
  · exact ⟨.inr (by linarith), .inl (by linarith)⟩

namespace Line

theorem contains_lerp (l : Line α) {t : α} (ht0 : 0 ≤ t) (ht1 : t ≤ 1) :
    l.bounds.contains (l.start.lerp l.stop t) = true := by
  rw [Rect.contains_iff, bounds, Rect.ofPoints_eq]
  exact ⟨lerp_between ht0 ht1, lerp_between ht0 ht1⟩

theorem contains_start (l : Line α) : l.bounds.contains l.start = true := by
  simp [Rect.contains_iff, bounds, Rect.ofPoints_eq]

theorem contains_stop (l : Line α) : l.bounds.contains l.stop = true := by
  simp [Rect.contains_iff, bounds, Rect.ofPoints_eq]

/-- The distance to a line is the distance to one of its points. -/
theorem exists_nearest (l : Line α) (p : Point α) :
    ∃ q, l.bounds.contains q = true ∧ l.distanceSq p = (p - q).normSq := by
  simp only [distanceSq, Scalar.numeral_zero]
  split
  · exact ⟨l.start, l.contains_start, rfl⟩
  · split
    · exact ⟨l.stop, l.contains_stop, rfl⟩
    · rename_i halong hwhole
      rw [not_le] at halong hwhole
      have hpos := halong.trans hwhole
      refine ⟨_, l.contains_lerp (div_nonneg halong.le hpos.le) ?_, rfl⟩
      exact (div_le_one hpos).mpr hwhole.le

end Line

/-! ## Items within their bounds -/

/-- An item covers no point outside the rectangle around it. -/
def Region.WithinBounds {T : Type} [Region α T] (item : T) : Prop :=
  ∀ p, Region.covers item p = true → (Region.bounds item).contains p = true

theorem Rect.withinBounds (r : Rect α) : Region.WithinBounds r := fun _ hcovers => hcovers

theorem Circle.withinBounds (c : Circle α) : Region.WithinBounds c := by
  intro p hcovers
  have hcenter : (⟨c.center.x, c.center.y, c.center.x, c.center.y⟩ : Rect α).contains c.center =
      true := by
    simp [Rect.contains_iff]
  have hcontains := Rect.contains_inflate hcenter (of_decide_eq_true hcovers)
  rwa [← OrderedScalar.abs_eq_abs] at hcontains

section

variable (hsqrt : ∀ x h : α, Scalar.sqrt x ≤ h ↔ 0 ≤ h ∧ x ≤ h * h)

include hsqrt

theorem StrokedLine.withinBounds (s : StrokedLine α) : Region.WithinBounds s := by
  intro p hcovers
  obtain ⟨q, hq, hdistance⟩ := s.line.exists_nearest p
  obtain ⟨hwidth, hnear⟩ := (hsqrt _ _).mp (of_decide_eq_true hcovers)
  rw [hdistance] at hnear
  have hcontains := Rect.contains_inflate hq hnear
  rwa [abs_of_nonneg hwidth] at hcontains

theorem Shape.withinBounds {s : Shape α} (hplain : ∀ path, s ≠ .path path) :
    Region.WithinBounds s := by
  cases s with
  | rect r => exact r.withinBounds
  | circle c => exact c.withinBounds
  | line l => exact l.withinBounds hsqrt
  | path path => exact absurd rfl (hplain path)

end

/-! ## Objects within their bounds -/

variable {T : Type} [Region α T]

theorem Drawable.covers_iff {d : Drawable α T} {p : Point α} :
    d.covers p = true ↔ d.transform.determinant ≠ 0 ∧
      Region.covers d.item (d.transform.inverse.apply p) = true := by
  by_cases hdet : d.transform.determinant = 0
  · simp [covers, Affine.inverse?_eq_error hdet, hdet]
  · simp [covers, Affine.inverse?_eq_ok hdet, hdet]

/-- Picking goes back through the inverse and the rectangle forward through the transform. -/
theorem Drawable.worldBounds_contains {d : Drawable α T} {p : Point α}
    (hitem : Region.WithinBounds d.item) (hcovers : d.covers p = true) :
    d.worldBounds.contains p = true := by
  obtain ⟨hdet, hlocal⟩ := covers_iff.mp hcovers
  have hcontains := Rect.contains_mapRect d.transform (hitem _ hlocal)
  rwa [Affine.apply_inverse_apply hdet] at hcontains

/-- The items of a kind are picked within the rectangles around their objects, and these are the
rectangles in which the anchor of a drag is found and which are painted again when the object is
transformed. -/
structure PickedWithinBounds (kind : T → Prop) : Prop where
  covers (d : Drawable α T) (p : Point α) : kind d.item → d.covers p = true →
    d.worldBounds.contains p = true
  hitTest (c : Canvas α T) (p : Point α) (k : Key) : c.slots.size ≤ UInt32.size →
    c.hitTest p = some k → (∀ d, c.get? k = some d → kind d.item) →
    ∃ r, c.worldBounds? k = some r ∧ r.contains p = true ∧
      (∀ e : Editor α T, e.canvas = c → e.hitAt p = some ⟨k, r⟩) ∧
      ∀ t frame, ∃ after c', c.applyTransform k t frame = .ok (⟨[r, after]⟩, c')

theorem pickedWithinBounds_of_items {kind : T → Prop}
    (hitems : ∀ item, kind item → Region.WithinBounds item) : PickedWithinBounds kind where
  covers d p hkind hcovers := d.worldBounds_contains (hitems _ hkind) hcovers
  hitTest c p k hroom hpicked hkind := by
    obtain ⟨d, htop⟩ := (Canvas.hitTest_eq_some_iff_topmost hroom).mp hpicked
    have hbounds : c.worldBounds? k = some d.worldBounds := by
      rw [Canvas.worldBounds?, htop.live, Option.map_some]
    refine ⟨d.worldBounds, hbounds, ?_, fun e he => ?_, fun t frame => ?_⟩
    · exact d.worldBounds_contains (hitems _ (hkind d htop.live)) htop.covers
    · subst he
      simp [Editor.hitAt, hpicked, hbounds]
    · rw [Canvas.applyTransform, Canvas.mapTransform, Canvas.update_of_some htop.live]
      exact ⟨_, _, rfl⟩

/-- **Picking keeps within the bounds of the picked**, for every shape but paths. -/
theorem picked_within_bounds (hsqrt : ∀ x h : α, Scalar.sqrt x ≤ h ↔ 0 ≤ h ∧ x ≤ h * h) :
    PickedWithinBounds (fun _ : Rect α => True) ∧
    PickedWithinBounds (fun _ : Circle α => True) ∧
    PickedWithinBounds (fun _ : StrokedLine α => True) ∧
    PickedWithinBounds (fun s : Shape α => ∀ path, s ≠ .path path) :=
  ⟨pickedWithinBounds_of_items fun r _ => r.withinBounds,
    pickedWithinBounds_of_items fun c _ => c.withinBounds,
    pickedWithinBounds_of_items fun l _ => l.withinBounds hsqrt,
    pickedWithinBounds_of_items fun _ => Shape.withinBounds hsqrt⟩

theorem picked_within_bounds_turned :
    let stroke : Drawable ℝ (StrokedLine ℝ) :=
      ⟨⟨⟨⟨0, 0⟩, ⟨4, 0⟩⟩, 2⟩, ⟨0, 1, -1, 0, 0, 0⟩, 0, default⟩
    let c : Canvas ℝ (StrokedLine ℝ) := .ofSlots #[some stroke]
    stroke.covers ⟨-2, 3⟩ = true ∧ stroke.worldBounds.contains ⟨-2, 3⟩ = true ∧
      c.hitTest ⟨-2, 3⟩ = some ⟨0⟩ ∧
      ∃ r, c.worldBounds? ⟨0⟩ = some r ∧ r.contains ⟨-2, 3⟩ = true := by
  intro stroke c
  have hsqrt : ∀ x h : ℝ, Scalar.sqrt x ≤ h ↔ 0 ≤ h ∧ x ≤ h * h := by
    intro x h
    rw [← sq]
    exact Real.sqrt_le_iff
  have hdet : stroke.transform.determinant ≠ 0 := by
    norm_num [stroke, Affine.determinant]
  have hlocal : stroke.transform.inverse.apply ⟨-2, 3⟩ = ⟨3, 2⟩ := by
    ext <;> simp [stroke, Affine.inverse, Affine.determinant, Affine.apply]
  have hcovers : stroke.covers ⟨-2, 3⟩ = true := by
    rw [Drawable.covers_iff, hlocal]
    refine ⟨hdet, decide_eq_true ((hsqrt _ _).mpr ⟨?_, ?_⟩)⟩
    · norm_num [stroke]
    · simp only [Line.distanceSq, Scalar.numeral_zero]
      norm_num [stroke, Vec.dot, Vec.normSq, Point.lerp, Vec.scale]
  have hroom : c.slots.size ≤ UInt32.size := by
    simp [c, Canvas.ofSlots, UInt32.size]
  have hpicked : c.hitTest ⟨-2, 3⟩ = some ⟨0⟩ := by
    have hhits : c.hits ⟨-2, 3⟩ = [(⟨0⟩, stroke)] := List.filter_cons_of_pos hcovers
    rw [Canvas.hitTest_eq, hhits]
    rfl
  obtain ⟨-, -, hline, -⟩ := picked_within_bounds hsqrt
  obtain ⟨r, hbounds, hcontains, -⟩ := hline.hitTest c _ _ hroom hpicked fun _ _ => trivial
  exact ⟨hcovers, hline.covers _ _ trivial hcovers, hpicked, r, hbounds, hcontains⟩

/-! ## When keys run out -/

/-- After 2³² placements the next object gets the key of the first, and is picked in its place. -/
theorem picked_outside_bounds_when_keys_run_out :
    let square (r : Rect ℝ) : Drawable ℝ (Rect ℝ) := ⟨r, .identity, 0, default⟩
    let c : Canvas ℝ (Rect ℝ) := Canvas.empty.run
      (List.replicate UInt32.size (.insert (square ⟨0, 0, 1, 1⟩)) ++
        [.insert (square ⟨10, 10, 20, 20⟩)])
    c.hitTest ⟨15, 15⟩ = some ⟨0⟩ ∧
      ∃ r, c.worldBounds? ⟨0⟩ = some r ∧ r.contains ⟨15, 15⟩ = false := by
  intro square c
  have hout : (square ⟨0, 0, 1, 1⟩).worldBounds.contains ⟨15, 15⟩ = false := by
    rw [Bool.eq_false_iff, ne_eq, Rect.contains_iff]
    norm_num [square, Drawable.worldBounds, Drawable.localBounds, Region.bounds, Affine.mapRect,
      Rect.union, Rect.ofPoints_eq, Rect.abs, Rect.minX, Rect.minY, Rect.maxX, Rect.maxY]
  have huncovered : (square ⟨0, 0, 1, 1⟩).covers ⟨15, 15⟩ = false := by
    rw [Bool.eq_false_iff]
    intro hcovers
    have hin := Drawable.worldBounds_contains (Rect.withinBounds _) hcovers
    rw [hout] at hin
    cases hin
  have hcovers : (square ⟨10, 10, 20, 20⟩).covers ⟨15, 15⟩ = true := by
    have hdet : (Affine.identity : Affine ℝ).determinant ≠ 0 := by simp
    have hlocal := Affine.inverse_apply_apply hdet ⟨15, 15⟩
    rw [Affine.apply_identity] at hlocal
    rw [Drawable.covers_iff, hlocal]
    refine ⟨hdet, Rect.contains_iff.mpr ?_⟩
    norm_num [square, Rect.abs, Rect.minX, Rect.minY, Rect.maxX, Rect.maxY]
  obtain ⟨hpicked, hget⟩ := Canvas.hitTest_of_full rfl huncovered rfl hcovers
  exact ⟨hpicked, _, congrArg (Option.map _) hget, hout⟩

end VectorEditor
