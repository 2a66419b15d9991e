import VectorEditor.Proofs.Keys

/-!
# The painting order

Objects are painted by their order and, within one order, by their keys. Objects under different
keys are never level: one is painted before the other (`Canvas.Below`), so that among any objects
there is at most one key on top (`Canvas.IsTop`). Two ways lead to it: going through the objects and
keeping the later one of two, and sorting them all and taking the last.
-/

namespace VectorEditor.Canvas

variable {α T : Type}

/-- The first object is painted before the second: it is of a lower order, or of the same order and
has a lower key. -/
def Below (a b : Key × Drawable α T) : Prop :=
  a.2.order < b.2.order ∨ a.2.order = b.2.order ∧ a.1.index < b.1.index

/-- The first object is painted no later than the second. -/
def NoLater (a b : Key × Drawable α T) : Prop := paintedBefore a.2.order a.1 b.2.order b.1 = true

/-- The one of two objects that is painted later. -/
def later (a b : Key × Drawable α T) : Key × Drawable α T :=
  if paintedBefore a.2.order a.1 b.2.order b.1 then b else a

/-- The object is among those listed, and none of them is painted later. -/
def IsTop (l : List (Key × Drawable α T)) (x : Key × Drawable α T) : Prop :=
  x ∈ l ∧ ∀ y ∈ l, NoLater y x

section order

variable {a b c : Key × Drawable α T}

theorem noLater_iff :
    NoLater a b ↔ a.2.order < b.2.order ∨ a.2.order = b.2.order ∧ a.1.index ≤ b.1.index := by
  simp only [NoLater, paintedBefore, Bool.or_eq_true, Bool.and_eq_true, decide_eq_true_eq,
    beq_iff_eq]

theorem noLater_trans (hab : NoLater a b) (hbc : NoLater b c) : NoLater a c := by
  rw [noLater_iff] at *
  grind

theorem noLater_total (a b : Key × Drawable α T) : NoLater a b ∨ NoLater b a := by
  rw [noLater_iff, noLater_iff]
  grind

theorem noLater_refl (a : Key × Drawable α T) : NoLater a a :=
  (noLater_total a a).elim id id

theorem key_eq_of_noLater (hab : NoLater a b) (hba : NoLater b a) : a.1 = b.1 := by
  rw [noLater_iff] at *
  apply Key.ext
  grind

theorem below_iff_noLater (hne : a.1 ≠ b.1) : Below a b ↔ NoLater a b := by
  have hindex : a.1.index ≠ b.1.index := fun h => hne (Key.ext h)
  rw [noLater_iff, Below]
  grind

theorem noLater_later_left (a b : Key × Drawable α T) : NoLater a (later a b) := by
  rw [later]
  split
  · assumption
  · exact noLater_refl a

theorem noLater_later_right (a b : Key × Drawable α T) : NoLater b (later a b) := by
  rw [later]
  split
  · exact noLater_refl b
  · rename_i h
    exact (noLater_total a b).resolve_left h

end order

/-! ## On top -/

section top

variable {l : List (Key × Drawable α T)} {x y : Key × Drawable α T}

theorem IsTop.key_eq (hx : IsTop l x) (hy : IsTop l y) : x.1 = y.1 :=
  key_eq_of_noLater (hy.2 x hx.1) (hx.2 y hy.1)

/-- Keeping the later one of two leads to the one on top. -/
theorem isTop_foldl_later (a : Key × Drawable α T) (l : List (Key × Drawable α T)) :
    IsTop (a :: l) (l.foldl later a) := by
  induction l generalizing a with
  | nil =>
    refine ⟨List.mem_singleton_self a, fun y hy => ?_⟩
    rw [List.mem_singleton.mp hy]
    exact noLater_refl a
  | cons b l ih =>
    obtain ⟨hmem, htop⟩ := ih (later a b)
    have hlater := htop (later a b) List.mem_cons_self
    refine ⟨?_, fun y hy => ?_⟩
    · rcases List.mem_cons.mp hmem with heq | hmem
      · rw [List.foldl_cons, heq, later]
        split <;> simp
      · exact List.mem_cons_of_mem a (List.mem_cons_of_mem b hmem)
    · rcases List.mem_cons.mp hy with rfl | hy
      · exact noLater_trans (noLater_later_left y b) hlater
      · rcases List.mem_cons.mp hy with rfl | hy
        · exact noLater_trans (noLater_later_right a y) hlater
        · exact htop y (List.mem_cons_of_mem _ hy)

theorem isTop_of_getLast? (hl : l.Pairwise NoLater) (hx : l.getLast? = some x) : IsTop l x := by
  obtain ⟨ys, rfl⟩ := List.getLast?_eq_some_iff.mp hx
  refine ⟨by simp, fun y hy => ?_⟩
  rcases List.mem_append.mp hy with hy | hy
  · exact (List.pairwise_append.mp hl).2.2 y hy x (List.mem_singleton_self x)
  · rw [List.mem_singleton.mp hy]
    exact noLater_refl x

/-- The last one in the order of painting is the one on top. -/
theorem getLast?_eq_iff_isTop (hl : l.Pairwise NoLater) {k : Key} :
    l.getLast?.map (·.1) = some k ↔ ∃ d, IsTop l (k, d) := by
  constructor
  · intro h
    obtain ⟨⟨k, d⟩, hlast, rfl⟩ := Option.map_eq_some_iff.mp h
    exact ⟨d, isTop_of_getLast? hl hlast⟩
  · rintro ⟨d, htop⟩
    cases hlast : l.getLast? with
    | none =>
      rw [List.getLast?_eq_none_iff.mp hlast] at htop
      cases htop.1
    | some x => exact congrArg some ((isTop_of_getLast? hl hlast).key_eq htop)

end top

/-! ## The objects as they are painted -/

section painted

variable {c : Canvas α T} {x : Key × Drawable α T}

/-- The visible objects with their keys, in the order in which they are painted. -/
def painted (c : Canvas α T) : List (Key × Drawable α T) :=
  (c.objects.filter (·.2.flags.visible)).mergeSort fun a b =>
    paintedBefore a.2.order a.1 b.2.order b.1

theorem drawList_eq (c : Canvas α T) : c.drawList = c.painted.map (·.1) := rfl

theorem mem_painted_iff : x ∈ c.painted ↔ x ∈ c.objects ∧ x.2.flags.visible = true := by
  rw [painted, (List.mergeSort_perm _ _).mem_iff, List.mem_filter]

theorem mem_drawList_iff (hroom : c.slots.size ≤ UInt32.size) {k : Key} :
    k ∈ c.drawList ↔ ∃ d, c.get? k = some d ∧ d.flags.visible = true := by
  simp only [drawList_eq, List.mem_map, mem_painted_iff, Prod.exists, mem_objects_iff hroom]
  exact ⟨fun ⟨l, d, hd, hl⟩ => ⟨d, hl ▸ hd⟩, fun ⟨d, hd⟩ => ⟨k, d, hd, rfl⟩⟩

theorem pairwise_painted (c : Canvas α T) : c.painted.Pairwise NoLater := by
  apply List.pairwise_mergeSort
  · intro a b c hab hbc
    exact noLater_trans hab hbc
  · intro a b
    rw [Bool.or_eq_true]
    exact noLater_total a b

end painted

end VectorEditor.Canvas
