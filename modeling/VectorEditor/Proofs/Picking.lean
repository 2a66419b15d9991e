import VectorEditor.Proofs.PaintingOrder

/-!
# Picking objects

The pointer picks the object on top among those that can be picked at its point (`Canvas.Topmost`),
whichever way the objects came to be where they are. One would expect to pick what one sees, that is
the last of the painted objects that can be picked there (`Canvas.lastPainted?`). But picking asks
whether an object can be picked and not whether it is visible, so the two differ wherever a hidden
object is on top, and only there (`Canvas.picks_lastPainted_iff`).
-/

namespace VectorEditor.Canvas

variable {α T : Type} [Scalar α] [Region α T]

/-- Whether an object can be picked at a point. -/
def pickableAt (p : Point α) (x : Key × Drawable α T) : Bool := x.2.flags.pickable && x.2.covers p

/-- The objects that can be picked at a point. -/
def hits (c : Canvas α T) (p : Point α) : List (Key × Drawable α T) :=
  c.objects.filter (pickableAt p)

/-- The object can be picked at the point and is painted after every other one that can. -/
structure Topmost (c : Canvas α T) (p : Point α) (k : Key) (d : Drawable α T) : Prop where
  live : c.get? k = some d
  pickable : d.flags.pickable = true
  covers : d.covers p = true
  above : ∀ l e, l ≠ k → c.get? l = some e → e.flags.pickable = true → e.covers p = true →
    Below (l, e) (k, d)

variable {c : Canvas α T} {p : Point α} {k : Key} {d : Drawable α T}

theorem Topmost.congr {c' : Canvas α T} (hget : ∀ k, c'.get? k = c.get? k)
    (h : c.Topmost p k d) : c'.Topmost p k d where
  live := (hget k).trans h.live
  pickable := h.pickable
  covers := h.covers
  above l e hne hl := h.above l e hne ((hget l).symm.trans hl)

theorem mem_hits_iff (hroom : c.slots.size ≤ UInt32.size) :
    (k, d) ∈ c.hits p ↔ c.get? k = some d ∧ d.flags.pickable = true ∧ d.covers p = true := by
  rw [hits, List.mem_filter, mem_objects_iff hroom, pickableAt, Bool.and_eq_true]

theorem isTop_hits_iff (hroom : c.slots.size ≤ UInt32.size) :
    IsTop (c.hits p) (k, d) ↔ c.Topmost p k d := by
  constructor
  · rintro ⟨hmem, htop⟩
    obtain ⟨hlive, hpickable, hcovers⟩ := (mem_hits_iff hroom).mp hmem
    refine ⟨hlive, hpickable, hcovers, fun l e hne hl hpick hcov => ?_⟩
    exact (below_iff_noLater hne).mpr (htop (l, e) ((mem_hits_iff hroom).mpr ⟨hl, hpick, hcov⟩))
  · rintro ⟨hlive, hpickable, hcovers, habove⟩
    refine ⟨(mem_hits_iff hroom).mpr ⟨hlive, hpickable, hcovers⟩, ?_⟩
    rintro ⟨l, e⟩ hmem
    obtain ⟨hl, hpick, hcov⟩ := (mem_hits_iff hroom).mp hmem
    by_cases hne : l = k
    · subst hne
      rw [hlive] at hl
      cases hl
      exact noLater_refl (l, d)
    · exact (below_iff_noLater hne).mp (habove l e hne hl hpick hcov)

/-! ## The one on top -/

theorem hitTest_eq (c : Canvas α T) (p : Point α) :
    c.hitTest p = match c.hits p with
      | [] => none
      | a :: rest => some (rest.foldl later a).1 := rfl

theorem hitTest_eq_none_iff : c.hitTest p = none ↔ c.hits p = [] := by
  rw [hitTest_eq]
  split <;> simp_all

theorem hitTest_extend (hnone : c.hitTest p = none) (hpickable : d.flags.pickable = true)
    (hcovers : d.covers p = true) : (c.extend (some d)).hitTest p = some c.nextKey := by
  have hhits : (c.extend (some d)).hits p = [(c.nextKey, d)] := by
    rw [hits, objects_extend, List.filter_append, ← hits, hitTest_eq_none_iff.mp hnone]
    simp [pickableAt, hpickable, hcovers]
  rw [hitTest_eq, hhits]
  rfl

theorem hitTest_eq_some_iff : c.hitTest p = some k ↔ ∃ d, IsTop (c.hits p) (k, d) := by
  rw [hitTest_eq]
  cases c.hits p with
  | nil => simp [IsTop]
  | cons a rest =>
    have htop := isTop_foldl_later a rest
    constructor
    · intro h
      cases h
      exact ⟨_, htop⟩
    · rintro ⟨d, hd⟩
      exact congrArg some (htop.key_eq hd)

theorem hitTest_eq_some_iff_topmost (hroom : c.slots.size ≤ UInt32.size) :
    c.hitTest p = some k ↔ ∃ d, c.Topmost p k d := by
  simp only [hitTest_eq_some_iff, isTop_hits_iff hroom]

/-- **The pointer picks the `Topmost` object**, whatever happened before. -/
theorem hitTest_finds_topmost (hroom : c.slots.size ≤ UInt32.size) (p : Point α) :
    (∀ k, c.hitTest p = some k ↔ ∃ d, c.Topmost p k d) ∧
    (c.hitTest p = none ↔
      ∀ k d, c.get? k = some d → ¬(d.flags.pickable = true ∧ d.covers p = true)) ∧
    ∀ c' : Canvas α T, c'.slots.size ≤ UInt32.size → (∀ k, c'.get? k = c.get? k) →
      c'.hitTest p = c.hitTest p := by
  refine ⟨fun k => hitTest_eq_some_iff_topmost hroom, ?_, fun c' hroom' hget => ?_⟩
  · simp only [hitTest_eq_none_iff, List.eq_nil_iff_forall_not_mem, Prod.forall,
      mem_hits_iff hroom, not_and]
  · apply Option.ext
    intro k
    rw [hitTest_eq_some_iff_topmost hroom', hitTest_eq_some_iff_topmost hroom]
    exact exists_congr fun d =>
      ⟨Topmost.congr fun l => (hget l).symm, Topmost.congr hget⟩

theorem hitTest_finds_topmost_tied :
    let square (order : Int32) (flags : Flags) : Drawable Float (Shape Float) :=
      ⟨.rect ⟨0, 0, 10, 10⟩, .identity, order, flags⟩
    let c : Canvas Float (Shape Float) :=
      .ofSlots #[some (square 2 default), some (square 2 default), none,
        some (square (-1) default), some (square 7 ⟨true, false⟩)]
    let c' := c.run [.remove ⟨1⟩, .remove ⟨3⟩, .restore ⟨1⟩ (square 2 default),
      .restore ⟨3⟩ (square (-1) default)]
    c.slots.size ≤ UInt32.size ∧ (∃ d, c.Topmost ⟨5, 5⟩ ⟨1⟩ d) ∧
      (∀ k d, c.get? k = some d → ¬(d.flags.pickable = true ∧ d.covers ⟨50, 5⟩ = true)) ∧
      c'.hitTest ⟨5, 5⟩ = c.hitTest ⟨5, 5⟩ := by
  intro square c c'
  have hroom : c.slots.size ≤ UInt32.size := by decide +kernel
  have hpicked : c.hitTest ⟨5, 5⟩ = some ⟨1⟩ := by decide +kernel
  have hnothing : c.hitTest ⟨50, 5⟩ = none := by decide +kernel
  have hsame : c' = c := by decide +kernel
  obtain ⟨htop, -, hpast⟩ := hitTest_finds_topmost hroom ⟨5, 5⟩
  obtain ⟨-, hnone, -⟩ := hitTest_finds_topmost hroom ⟨50, 5⟩
  refine ⟨hroom, (htop ⟨1⟩).mp hpicked, hnone.mp hnothing, ?_⟩
  exact hpast c' (hsame ▸ hroom) fun k => by rw [hsame]

/-! ## When keys run out -/

/-- The key of the first object is given out again, and the next object is picked under it. -/
theorem hitTest_of_full {n : Nat} (hfull : n = UInt32.size) {d d' : Drawable α T}
    (hd : d.covers p = false) (hpickable : d'.flags.pickable = true)
    (hcovers : d'.covers p = true) :
    let c := (empty : Canvas α T).run (List.replicate n (.insert d) ++ [.insert d'])
    c.hitTest p = some ⟨0⟩ ∧ c.get? ⟨0⟩ = some d := by
  have hc : (empty : Canvas α T).run (List.replicate n (.insert d) ++ [.insert d']) =
      (empty.extendBy n d).extend (some d') := by
    rw [run_append, run_replicate_insert]
    exact after_insert _ d'
  have hsize : ((empty : Canvas α T).extendBy n d).slots.size = UInt32.size := by
    rw [size_extendBy_empty, hfull]
  have hget : ∀ k : Key, (empty.extendBy n d).get? k = some d := fun k =>
    get?_extendBy_empty (hfull ▸ k.index.toNat_lt) d
  have hnone : (empty.extendBy n d).hitTest p = none := by
    rw [hitTest_eq_none_iff, List.eq_nil_iff_forall_not_mem]
    rintro ⟨k, e⟩ hmem
    obtain ⟨he, -, hcovered⟩ := (mem_hits_iff (Nat.le_of_eq hsize)).mp hmem
    cases (hget k).symm.trans he
    rw [hd] at hcovered
    cases hcovered
  simp only [hc]
  refine ⟨?_, get?_extend_of_some (hget ⟨0⟩) (some d')⟩
  rw [hitTest_extend hnone hpickable hcovers, nextKey_of_full hsize]

/-! ## Picking what is painted -/

/-- The key painted last among the visible ones that can be picked at the point. -/
def lastPainted? (c : Canvas α T) (p : Point α) : Option Key :=
  (c.drawList.filter fun k => (c.get? k).any fun d => d.flags.pickable && d.covers p).getLast?

theorem lastPainted?_eq (hroom : c.slots.size ≤ UInt32.size) (p : Point α) :
    c.lastPainted? p = (c.painted.filter (pickableAt p)).getLast?.map (·.1) := by
  have hlookup : ∀ x ∈ c.painted,
      ((c.get? x.1).any fun d => d.flags.pickable && d.covers p) = pickableAt p x := by
    rintro ⟨k, d⟩ hx
    rw [(mem_objects_iff hroom).mp (mem_painted_iff.mp hx).1]
    rfl
  rw [lastPainted?, drawList_eq, List.filter_map, List.getLast?_map]
  exact congrArg (fun l => Option.map _ (List.getLast? l)) (List.filter_congr hlookup)

theorem mem_filter_painted_iff {x : Key × Drawable α T} :
    x ∈ c.painted.filter (pickableAt p) ↔ x ∈ c.hits p ∧ x.2.flags.visible = true := by
  rw [List.mem_filter, mem_painted_iff, hits, List.mem_filter, and_right_comm]

theorem lastPainted?_eq_some_iff (hroom : c.slots.size ≤ UInt32.size) :
    c.lastPainted? p = some k ↔ ∃ d, IsTop (c.painted.filter (pickableAt p)) (k, d) := by
  rw [lastPainted?_eq hroom, getLast?_eq_iff_isTop (c.pairwise_painted.filter _)]

theorem lastPainted?_of_visible (hroom : c.slots.size ≤ UInt32.size) (htop : c.Topmost p k d)
    (hvisible : d.flags.visible = true) : c.lastPainted? p = some k := by
  obtain ⟨hmem, hall⟩ := (isTop_hits_iff hroom).mpr htop
  refine (lastPainted?_eq_some_iff hroom).mpr ⟨d, ?_, fun y hy => ?_⟩
  · exact mem_filter_painted_iff.mpr ⟨hmem, hvisible⟩
  · exact hall y (mem_filter_painted_iff.mp hy).1

theorem visible_of_lastPainted? (hroom : c.slots.size ≤ UInt32.size)
    (hlast : c.lastPainted? p = some k) (hlive : c.get? k = some d) : d.flags.visible = true := by
  obtain ⟨d', hmem, -⟩ := (lastPainted?_eq_some_iff hroom).mp hlast
  obtain ⟨hhit, hvisible⟩ := mem_filter_painted_iff.mp hmem
  have hlive' := ((mem_hits_iff hroom).mp hhit).1
  rw [hlive] at hlive'
  cases hlive'
  exact hvisible

/-- **One picks what one sees** (`lastPainted?`), **unless a hidden object is on top.** -/
theorem picks_lastPainted_iff (hroom : c.slots.size ≤ UInt32.size) (p : Point α) :
    (c.hitTest p = c.lastPainted? p ↔ ∀ k d, c.Topmost p k d → d.flags.visible = true) ∧
    ∀ k d, c.Topmost p k d → d.flags.visible = false → c.hitTest p = some k ∧ k ∉ c.drawList := by
  refine ⟨⟨fun hagree k d htop => ?_, fun hvisible => ?_⟩, fun k d htop hhidden => ⟨?_, ?_⟩⟩
  · have hpicked := (hitTest_eq_some_iff_topmost hroom).mpr ⟨d, htop⟩
    exact visible_of_lastPainted? hroom (hagree ▸ hpicked) htop.live
  · cases hpicked : c.hitTest p with
    | none =>
      have hempty : c.painted.filter (pickableAt p) = [] := by
        rw [List.eq_nil_iff_forall_not_mem]
        intro x hx
        have hhit := (mem_filter_painted_iff.mp hx).1
        rw [hitTest_eq_none_iff.mp hpicked] at hhit
        cases hhit
      rw [lastPainted?_eq hroom, hempty]
      rfl
    | some k =>
      obtain ⟨d, htop⟩ := (hitTest_eq_some_iff_topmost hroom).mp hpicked
      exact (lastPainted?_of_visible hroom htop (hvisible k d htop)).symm
  · exact (hitTest_eq_some_iff_topmost hroom).mpr ⟨d, htop⟩
  · intro hmem
    obtain ⟨d', hlive, hvisible⟩ := (mem_drawList_iff hroom).mp hmem
    rw [htop.live] at hlive
    cases hlive
    rw [hhidden] at hvisible
    cases hvisible

theorem picks_lastPainted_iff_covered :
    let square (order : Int32) (flags : Flags) : Drawable Float (Shape Float) :=
      ⟨.rect ⟨0, 0, 10, 10⟩, .identity, order, flags⟩
    let c : Canvas Float (Shape Float) :=
      .ofSlots #[some (square 4 ⟨false, true⟩), none, some (square 4 ⟨true, true⟩),
        some (square 9 ⟨true, false⟩), some (square (-4) ⟨true, true⟩)]
    c.slots.size ≤ UInt32.size ∧ c.hitTest ⟨5, 5⟩ = some ⟨2⟩ ∧
      (∀ k d, c.Topmost ⟨5, 5⟩ k d → d.flags.visible = true) ∧
      c.lastPainted? ⟨5, 5⟩ = some ⟨2⟩ := by
  intro square c
  have hroom : c.slots.size ≤ UInt32.size := by decide +kernel
  have hpicked : c.hitTest ⟨5, 5⟩ = some ⟨2⟩ := by decide +kernel
  have hlive : c.get? ⟨2⟩ = some (square 4 ⟨true, true⟩) := by decide +kernel
  have hvisible : ∀ k d, c.Topmost ⟨5, 5⟩ k d → d.flags.visible = true := by
    intro k d htop
    have hk := (hitTest_eq_some_iff_topmost hroom).mpr ⟨d, htop⟩
    rw [hpicked] at hk
    cases hk
    have hd := htop.live
    rw [hlive] at hd
    cases hd
    rfl
  refine ⟨hroom, hpicked, hvisible, ?_⟩
  rw [← (picks_lastPainted_iff hroom ⟨5, 5⟩).1.mpr hvisible, hpicked]

/-- A hidden object can be picked in place of the visible one below it. -/
theorem hidden_object_picked :
    let square (order : Int32) (flags : Flags) : Drawable Float (Shape Float) :=
      ⟨.rect ⟨0, 0, 10, 10⟩, .identity, order, flags⟩
    let c : Canvas Float (Shape Float) :=
      .ofSlots #[some (square 0 ⟨true, true⟩), some (square 1 ⟨false, true⟩)]
    c.drawList = [⟨0⟩] ∧ c.lastPainted? ⟨5, 5⟩ = some ⟨0⟩ ∧ c.hitTest ⟨5, 5⟩ = some ⟨1⟩ ∧
      (c.get? ⟨1⟩).map (·.flags.visible) = some false := by
  decide +kernel

end VectorEditor.Canvas
