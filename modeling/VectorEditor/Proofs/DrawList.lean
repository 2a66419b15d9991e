import VectorEditor.Proofs.PaintingOrder

/-!
# The draw list

The draw list holds the keys of the visible objects, each after all those that are painted before it
(`Canvas.Precedes`). As no two keys are level there is only one such list (`Canvas.eq_drawList_iff`):
how it is sorted does not matter, nor does anything that happened on the canvas before. The highest
and the lowest place in the painting order are taken over all objects, hidden ones included.
-/

namespace VectorEditor

/-- The greater of two places in the painting order is the least one that is above both. -/
instance lawfulOrderMaxInt32 : Std.LawfulOrderMax Int32 where
  max_le_iff m n o := by
    simp only [max]
    split <;> grind
  max_eq_or m n := by
    simp only [max]
    split <;> simp

namespace Canvas

variable {α T : Type}

/-- The object of the first key is painted before the object of the second. -/
def Precedes (c : Canvas α T) (k l : Key) : Prop :=
  ∃ d e, c.get? k = some d ∧ c.get? l = some e ∧ Below (k, d) (l, e)

variable {c c' : Canvas α T} {k l : Key} {ks ls : List Key}

theorem below_asymm {a b : Key × Drawable α T} (h : Below a b) : ¬Below b a := by
  rw [Below] at *
  grind

theorem precedes_of_noLater {d e : Drawable α T} (hk : c.get? k = some d) (hl : c.get? l = some e)
    (hne : k ≠ l) (h : NoLater (k, d) (l, e)) : c.Precedes k l :=
  ⟨d, e, hk, hl, (below_iff_noLater hne).mpr h⟩

theorem Precedes.asymm (h : c.Precedes k l) : ¬c.Precedes l k := by
  rintro ⟨e', d', hl', hk', hbelow'⟩
  obtain ⟨d, e, hk, hl, hbelow⟩ := h
  rw [hk] at hk'
  rw [hl] at hl'
  cases hk'
  cases hl'
  exact below_asymm hbelow hbelow'

theorem Precedes.ne (h : c.Precedes k l) : k ≠ l := by
  rintro rfl
  exact h.asymm h

theorem Precedes.congr (hk : c'.get? k = c.get? k) (hl : c'.get? l = c.get? l)
    (h : c.Precedes k l) : c'.Precedes k l := by
  obtain ⟨d, e, hd, he, hbelow⟩ := h
  exact ⟨d, e, hk.trans hd, hl.trans he, hbelow⟩

/-! ## One list in the order of painting -/

theorem eq_of_pairwise_precedes (hks : ks.Pairwise c.Precedes) (hls : ls.Pairwise c.Precedes)
    (hmem : ∀ k, k ∈ ks ↔ k ∈ ls) : ks = ls := by
  have hperm : ks.Perm ls :=
    (List.perm_ext_iff_of_nodup (hks.imp Precedes.ne) (hls.imp Precedes.ne)).mpr hmem
  exact hperm.eq_of_pairwise (fun _ _ _ _ h h' => absurd h' h.asymm) hks hls

theorem nodup_painted (hroom : c.slots.size ≤ UInt32.size) :
    c.painted.Pairwise fun a b => a.1 ≠ b.1 := by
  have hkeys : c.objects.Pairwise fun a b => a.1 ≠ b.1 := by
    refine (List.pairwise_map.mp (pairwise_objects hroom)).imp fun hlt heq => ?_
    rw [heq] at hlt
    exact Nat.lt_irrefl _ hlt
  exact (hkeys.filter _).perm (List.mergeSort_perm _ _).symm fun hne => hne.symm

theorem pairwise_drawList (hroom : c.slots.size ≤ UInt32.size) :
    c.drawList.Pairwise c.Precedes := by
  rw [drawList_eq, List.pairwise_map]
  refine (c.pairwise_painted.and (nodup_painted hroom)).imp_of_mem ?_
  rintro ⟨k, d⟩ ⟨l, e⟩ hk hl ⟨hlater, hne⟩
  have hd := (mem_objects_iff hroom).mp (mem_painted_iff.mp hk).1
  have he := (mem_objects_iff hroom).mp (mem_painted_iff.mp hl).1
  exact precedes_of_noLater hd he hne hlater

/-- **The draw list is the only list of the visible objects in the order of `Precedes`.** -/
theorem eq_drawList_iff (hroom : c.slots.size ≤ UInt32.size) :
    ks = c.drawList ↔
      (∀ k, k ∈ ks ↔ ∃ d, c.get? k = some d ∧ d.flags.visible = true) ∧
        ks.Pairwise c.Precedes := by
  constructor
  · rintro rfl
    exact ⟨fun k => mem_drawList_iff hroom, pairwise_drawList hroom⟩
  · rintro ⟨hmem, hks⟩
    refine eq_of_pairwise_precedes hks (pairwise_drawList hroom) fun k => ?_
    rw [hmem, mem_drawList_iff hroom]

theorem filter_drawList_congr (hroom : c.slots.size ≤ UInt32.size)
    (hroom' : c'.slots.size ≤ UInt32.size) (hothers : ∀ l, l ≠ k → c'.get? l = c.get? l) :
    c'.drawList.filter (· ≠ k) = c.drawList.filter (· ≠ k) := by
  refine eq_of_pairwise_precedes (c := c) ?_ ((pairwise_drawList hroom).filter _) fun l => ?_
  · refine ((pairwise_drawList hroom').filter _).imp_of_mem fun hl hm h => ?_
    have hl := of_decide_eq_true (List.mem_filter.mp hl).2
    have hm := of_decide_eq_true (List.mem_filter.mp hm).2
    exact h.congr (hothers _ hl).symm (hothers _ hm).symm
  · simp only [List.mem_filter, mem_drawList_iff hroom, mem_drawList_iff hroom', decide_eq_true_eq]
    exact and_congr_left fun hl => by rw [hothers l hl]

theorem drawList_congr (hroom : c.slots.size ≤ UInt32.size)
    (hroom' : c'.slots.size ≤ UInt32.size) (hget : ∀ k, c'.get? k = c.get? k) :
    c'.drawList = c.drawList := by
  refine (eq_drawList_iff hroom).mpr ⟨fun k => ?_, ?_⟩
  · rw [mem_drawList_iff hroom', hget]
  · exact (pairwise_drawList hroom').imp fun h => h.congr (hget _).symm (hget _).symm

/-! ## The ends of the painting order -/

theorem mem_orders_iff (hroom : c.slots.size ≤ UInt32.size) {n : Int32} :
    n ∈ c.objects.map (·.2.order) ↔ ∃ k d, c.get? k = some d ∧ d.order = n := by
  simp only [List.mem_map, Prod.exists, mem_objects_iff hroom]

theorem length_objects (c : Canvas α T) : c.objects.length = c.size := by
  have hisSome : (fun x : Option (Drawable α T) × Nat => (x.1.map (Key.ofSlot x.2, ·)).isSome) =
      Option.isSome ∘ Prod.fst := by
    funext x
    exact Option.isSome_map
  calc c.objects.length
      = c.slots.toList.zipIdx.countP (Option.isSome ∘ Prod.fst) := by
        rw [objects, List.length_filterMap_eq_countP, ← hisSome]
    _ = (c.slots.toList.zipIdx.map Prod.fst).countP Option.isSome := by rw [List.countP_map]
    _ = c.size := by rw [List.zipIdx_map_fst, size, c.live_eq, Array.countP_toList]

theorem orders_eq_nil_iff (c : Canvas α T) : c.objects.map (·.2.order) = [] ↔ c.isEmpty = true := by
  rw [List.map_eq_nil_iff, ← List.length_eq_zero_iff, length_objects, isEmpty, beq_iff_eq]

theorem maxOrder?_eq_some_iff (hroom : c.slots.size ≤ UInt32.size) {n : Int32} :
    c.maxOrder? = some n ↔
      (∃ k d, c.get? k = some d ∧ d.order = n) ∧ ∀ k d, c.get? k = some d → d.order ≤ n := by
  rw [maxOrder?, List.max?_eq_some_iff, mem_orders_iff hroom]
  simp only [mem_orders_iff hroom]
  grind

theorem minOrder?_eq_some_iff (hroom : c.slots.size ≤ UInt32.size) {n : Int32} :
    c.minOrder? = some n ↔
      (∃ k d, c.get? k = some d ∧ d.order = n) ∧ ∀ k d, c.get? k = some d → n ≤ d.order := by
  rw [minOrder?, List.min?_eq_some_iff, mem_orders_iff hroom]
  simp only [mem_orders_iff hroom]
  grind

/-! ## Removing and restoring -/

theorem restore_of_remove {d : Drawable α T} (hd : c.get? k = some d) :
    ∃ removed, c.remove k = .ok (d, removed) ∧ removed.restore k d = .ok c := by
  have hslot := get?_eq_some_iff.mp hd
  refine ⟨c.put k none, remove_of_some hd, ?_⟩
  rw [restore_of_vacant (slot?_put_self hslot none), put_put, put_of_slot? hslot]

/-- **The draw list is the sorted list of the visible objects** (`Precedes`). -/
theorem drawList_sorts_visible (hroom : c.slots.size ≤ UInt32.size) :
    (∀ k, k ∈ c.drawList ↔ ∃ d, c.get? k = some d ∧ d.flags.visible = true) ∧
    c.drawList.Nodup ∧ c.drawList.Pairwise c.Precedes ∧
    (∀ ks : List Key, (∀ k, k ∈ ks ↔ ∃ d, c.get? k = some d ∧ d.flags.visible = true) →
      ks.Pairwise c.Precedes → ks = c.drawList) ∧
    (∀ n, c.maxOrder? = some n ↔
      (∃ k d, c.get? k = some d ∧ d.order = n) ∧ ∀ k d, c.get? k = some d → d.order ≤ n) ∧
    (∀ n, c.minOrder? = some n ↔
      (∃ k d, c.get? k = some d ∧ d.order = n) ∧ ∀ k d, c.get? k = some d → n ≤ d.order) ∧
    (c.maxOrder? = none ↔ c.isEmpty = true) ∧ (c.minOrder? = none ↔ c.isEmpty = true) ∧
    (∀ c' : Canvas α T, c'.slots.size ≤ UInt32.size → (∀ k, c'.get? k = c.get? k) →
      c'.drawList = c.drawList) ∧
    ∀ k d, c.get? k = some d → ∃ removed restored, c.remove k = .ok (d, removed) ∧
      removed.restore k d = .ok restored ∧ restored.drawList = c.drawList := by
  refine ⟨fun k => mem_drawList_iff hroom, (pairwise_drawList hroom).imp Precedes.ne,
    pairwise_drawList hroom, fun ks hmem hks => ?_, fun n => maxOrder?_eq_some_iff hroom,
    fun n => minOrder?_eq_some_iff hroom, ?_, ?_, fun c' hroom' hget => ?_, fun k d hd => ?_⟩
  · exact (eq_drawList_iff hroom).mpr ⟨hmem, hks⟩
  · rw [maxOrder?, List.max?_eq_none_iff, orders_eq_nil_iff]
  · rw [minOrder?, List.min?_eq_none_iff, orders_eq_nil_iff]
  · exact drawList_congr hroom hroom' hget
  · obtain ⟨removed, hremoved, hrestored⟩ := restore_of_remove hd
    exact ⟨removed, c, hremoved, hrestored, rfl⟩

theorem drawList_sorts_visible_tied :
    let square (order : Int32) (flags : Flags) : Drawable Float (Shape Float) :=
      ⟨.rect ⟨0, 0, 10, 10⟩, .identity, order, flags⟩
    let c : Canvas Float (Shape Float) := empty.run
      [.insert (square 2 default), .insert (square (-1) default), .insert (square 9 default),
        .insert (square 2 default), .insert (square 7 ⟨false, true⟩), .remove ⟨2⟩]
    c.slots.size ≤ UInt32.size ∧ c.drawList = [⟨1⟩, ⟨0⟩, ⟨3⟩] ∧ c.drawList.Pairwise c.Precedes ∧
      (¬∃ d, c.get? ⟨4⟩ = some d ∧ d.flags.visible = true) ∧
      (∀ k d, c.get? k = some d → d.order ≤ 7) ∧ (∀ k d, c.get? k = some d → -1 ≤ d.order) ∧
      ∃ removed restored, c.remove ⟨0⟩ = .ok (square 2 default, removed) ∧
        removed.restore ⟨0⟩ (square 2 default) = .ok restored ∧
        restored.drawList = [⟨1⟩, ⟨0⟩, ⟨3⟩] := by
  intro square c
  have hroom : c.slots.size ≤ UInt32.size := by decide +kernel
  have hvisible : c.objects.filter (·.2.flags.visible) =
      [(⟨0⟩, square 2 default), (⟨1⟩, square (-1) default), (⟨3⟩, square 2 default)] := by
    decide +kernel
  have hlist : c.drawList = [⟨1⟩, ⟨0⟩, ⟨3⟩] := by
    simp only [drawList, hvisible]
    simp [List.mergeSort, List.MergeSort.Internal.splitInTwo, paintedBefore, square]
  have hmax : c.maxOrder? = some 7 := by decide +kernel
  have hmin : c.minOrder? = some (-1) := by decide +kernel
  have hlive : c.get? ⟨0⟩ = some (square 2 default) := by decide +kernel
  obtain ⟨hmem, -, hsorted, -, hhighest, hlowest, -, -, -, hback⟩ := drawList_sorts_visible hroom
  obtain ⟨removed, restored, hremoved, hrestored, hsame⟩ := hback ⟨0⟩ (square 2 default) hlive
  refine ⟨hroom, hlist, hsorted, ?_, ((hhighest 7).mp hmax).2, ((hlowest (-1)).mp hmin).2,
    removed, restored, hremoved, hrestored, hsame.trans hlist⟩
  rw [← hmem, hlist]
  decide

end Canvas

end VectorEditor
