import VectorEditor.Proofs.DrawList
import VectorEditor.Proofs.Picking
import VectorEditor.Proofs.Requests

/-!
# Raising and lowering

To raise an object is to give it the order above the highest of all others, to lower it the one
below the lowest; both are `Editor.restack`, towards one end or the other (`Editor.restack_restacks`).
The object then is at the end of the painting order, and picking finds it first or last. Orders are
numbers of a fixed width, though, and at the end of their range there is no further one: an object
that shares the last order with another one stays there, but the request is recorded and answered as
if it had moved.
-/

namespace VectorEditor

variable {α T : Type}

namespace Canvas

/-- All objects but that of the key `k` have orders with the property `P`. -/
def Others (c : Canvas α T) (k : Key) (P : Int32 → Prop) : Prop :=
  ∀ l d, l ≠ k → c.get? l = some d → P d.order

/-- The object `d` of the key `k` has got the order `n`; all others are as before and painted in the
same order. -/
structure Restacked (c c' : Canvas α T) (k : Key) (d : Drawable α T) (n : Int32) : Prop where
  object : c'.get? k = some { d with order := n }
  others : ∀ l, l ≠ k → c'.get? l = c.get? l
  painted : c'.drawList.filter (· ≠ k) = c.drawList.filter (· ≠ k)

variable {c c' : Canvas α T} {k : Key} {d : Drawable α T} {n : Int32}

theorem restacked_put (hroom : c.slots.size ≤ UInt32.size) (hd : c.get? k = some d) (n : Int32) :
    c.Restacked (c.put k (some { d with order := n })) k d n where
  object := get?_put_self (get?_eq_some_iff.mp hd) _
  others l hl := get?_put_ne hl c _
  painted := by
    refine filter_drawList_congr hroom ?_ fun l hl => get?_put_ne hl c _
    rw [size_put]
    exact hroom

theorem Restacked.keeps_others (h : c.Restacked c' k d n) {P : Int32 → Prop}
    (hothers : c.Others k P) : c'.Others k P := by
  intro l e hl he
  rw [h.others l hl] at he
  exact hothers l e hl he

/-! ## At the end of the painting order -/

theorem not_precedes_of_highest (hd : c.get? k = some d) (h : c.Others k (· < d.order)) (l : Key) :
    ¬c.Precedes k l := by
  intro hbefore
  have hne : l ≠ k := hbefore.ne.symm
  obtain ⟨d', e, hd', he, hbelow⟩ := hbefore
  obtain rfl : d = d' := Option.some.inj (hd.symm.trans hd')
  exact below_asymm hbelow (.inl (h l e hne he))

theorem not_precedes_of_lowest (hd : c.get? k = some d) (h : c.Others k (d.order < ·)) (l : Key) :
    ¬c.Precedes l k := by
  intro hbefore
  have hne : l ≠ k := hbefore.ne
  obtain ⟨e, d', he, hd', hbelow⟩ := hbefore
  obtain rfl : d = d' := Option.some.inj (hd.symm.trans hd')
  exact below_asymm hbelow (.inl (h l e hne he))

section draw

variable (hroom : c.slots.size ≤ UInt32.size) (hd : c.get? k = some d)

include hroom hd

theorem getLast?_drawList_of_highest (h : c.Others k (· < d.order))
    (hvisible : d.flags.visible = true) : c.drawList.getLast? = some k := by
  have hmem : k ∈ c.drawList := (mem_drawList_iff hroom).mpr ⟨d, hd, hvisible⟩
  obtain ⟨before, after, hsplit⟩ := List.append_of_mem hmem
  have hsorted := pairwise_drawList hroom
  rw [hsplit, List.pairwise_append, List.pairwise_cons] at hsorted
  cases after with
  | nil => rw [hsplit, List.getLast?_concat]
  | cons l after =>
    have hafter := hsorted.2.1.1 l List.mem_cons_self
    exact absurd hafter (not_precedes_of_highest hd h l)

theorem head?_drawList_of_lowest (h : c.Others k (d.order < ·))
    (hvisible : d.flags.visible = true) : c.drawList.head? = some k := by
  have hmem : k ∈ c.drawList := (mem_drawList_iff hroom).mpr ⟨d, hd, hvisible⟩
  obtain ⟨before, after, hsplit⟩ := List.append_of_mem hmem
  have hsorted := pairwise_drawList hroom
  rw [hsplit, List.pairwise_append] at hsorted
  cases before with
  | nil => rw [hsplit, List.nil_append, List.head?_cons]
  | cons l before =>
    have hbefore := hsorted.2.2 l List.mem_cons_self k List.mem_cons_self
    exact absurd hbefore (not_precedes_of_lowest hd h l)

variable [Scalar α] [Region α T] {p : Point α}

theorem hitTest_of_highest (h : c.Others k (· < d.order)) (hpickable : d.flags.pickable = true)
    (hcovers : d.covers p = true) : c.hitTest p = some k :=
  (hitTest_eq_some_iff_topmost hroom).mpr
    ⟨d, hd, hpickable, hcovers, fun l e hl he _ _ => .inl (h l e hl he)⟩

theorem not_pickable_of_lowest (h : c.Others k (d.order < ·)) (hhit : c.hitTest p = some k)
    {l : Key} {e : Drawable α T} (hl : l ≠ k) (he : c.get? l = some e) :
    ¬(e.flags.pickable = true ∧ e.covers p = true) := by
  rintro ⟨hpickable, hcovers⟩
  obtain ⟨d', htop⟩ := (hitTest_eq_some_iff_topmost hroom).mp hhit
  obtain rfl : d = d' := Option.some.inj (hd.symm.trans htop.live)
  exact below_asymm (htop.above l e hl he hpickable hcovers) (.inl (h l e hl he))

end draw

end Canvas

namespace Editor

namespace End

/-- The last place of all towards the end. -/
def limit : End → Int32
  | .top => Int32.maxValue
  | .bottom => Int32.minValue

variable {s : End} {l m n : Int32} {orders : List Int32}

theorem beyond_of_not_beyond (hmn : s.Beyond m n) (hln : ¬s.Beyond l n) : s.Beyond m l := by
  cases s with
  | top => exact Std.lt_of_le_of_lt (Std.not_lt.mp hln) hmn
  | bottom => exact Std.lt_of_lt_of_le hmn (Std.not_lt.mp hln)

theorem not_beyond_self : ¬s.Beyond n n := by
  cases s with
  | top | bottom => exact Std.lt_irrefl

theorem outermost?_eq_none_iff : s.outermost? orders = none ↔ orders = [] := by
  cases s with
  | top => exact List.max?_eq_none_iff
  | bottom => exact List.min?_eq_none_iff

theorem outermost?_eq_some_iff :
    s.outermost? orders = some n ↔ n ∈ orders ∧ ∀ m ∈ orders, ¬s.Beyond m n := by
  cases s with
  | top => simpa only [outermost?, Beyond, Std.not_lt] using List.max?_eq_some_iff
  | bottom => simpa only [outermost?, Beyond, Std.not_lt] using List.min?_eq_some_iff

theorem eq_limit_of_not_beyond (h : ¬s.Beyond s.limit n) : n = s.limit := by
  cases s with
  | top => exact Std.le_antisymm (Int32.le_maxValue n) (Std.not_lt.mp h)
  | bottom => exact Std.le_antisymm (Std.not_lt.mp h) (Int32.minValue_le n)

theorem beyond_next (h : s.Beyond s.limit n) : s.Beyond (s.next n) n := by
  cases s with
  | top =>
    have hlt : n < Int32.maxValue := h
    show n < above n
    rw [above]
    grind
  | bottom =>
    have hlt : Int32.minValue < n := h
    show below n < n
    rw [below]
    grind

theorem next_eq_iff (h : ¬s.Beyond m n) : s.next n = m ↔ m = s.limit ∧ n = s.limit := by
  cases s with
  | top =>
    have hle : m ≤ n := Std.not_lt.mp h
    show above n = m ↔ m = Int32.maxValue ∧ n = Int32.maxValue
    rw [above]
    grind
  | bottom =>
    have hle : n ≤ m := Std.not_lt.mp h
    show below n = m ↔ m = Int32.minValue ∧ n = Int32.minValue
    rw [below]
    grind

end End

/-! ## What the requests do -/

variable [Scalar α]

/-- The reply leaves the object `d` of the key `k` at the order `n`, and records a change of the
order if it has made one. -/
structure Reply.Restacks (e : Editor α T) (k : Key) (d : Drawable α T) (n : Int32) (moved : Bool)
    (q : Reply α T (Except (Error α) Bool)) : Prop where
  answer : q.answer = .ok moved
  canvas : q.editor.canvas = e.canvas.put k (some { d with order := n })
  history : q.editor.history =
    if moved then e.history.push (.reorder k d.order n) else e.history

variable {e : Editor α T} {k : Key} {d : Drawable α T}

omit [Scalar α] in
theorem restacks_of_kept (hd : e.canvas.get? k = some d) :
    Reply.Restacks e k d d.order false { answer := .ok false, editor := e } where
  answer := rfl
  canvas := (Canvas.put_of_slot? (Canvas.get?_eq_some_iff.mp hd)).symm
  history := rfl

variable [Region α T]

theorem reorder_restacks (hd : e.canvas.get? k = some d) (n : Int32) :
    (e.reorder k d.order n).Restacks e k d n true := by
  have hslot : e.canvas.slot? (Change.reorder k d.order n : Change α T).key = some (some d) :=
    Canvas.get?_eq_some_iff.mp hd
  rw [reorder, commit_of_applies hslot .reorder]
  exact ⟨rfl, rfl, rfl⟩

theorem restack_of_live (s : End) (hd : e.canvas.get? k = some d) :
    (∀ m ∈ e.otherOrders k, s.Beyond d.order m) ∧
        e.restack s k = { answer := .ok false, editor := e } ∨
      ∃ n ∈ e.otherOrders k, (∀ m ∈ e.otherOrders k, ¬s.Beyond m n) ∧ ¬s.Beyond d.order n ∧
        e.restack s k = e.reorder k d.order (s.next n) := by
  rw [restack, hd]
  cases hout : s.outermost? (e.otherOrders k) with
  | none =>
    rw [End.outermost?_eq_none_iff.mp hout]
    exact .inl ⟨fun _ hm => absurd hm List.not_mem_nil, rfl⟩
  | some n =>
    obtain ⟨hmem, hall⟩ := End.outermost?_eq_some_iff.mp hout
    by_cases hn : s.Beyond d.order n
    · refine .inl ⟨fun m hm => ?_, by simp only [if_pos hn]⟩
      exact End.beyond_of_not_beyond hn (hall m hm)
    · exact .inr ⟨n, hmem, hall, hn, by simp only [if_neg hn]⟩

/-! ## Away from the ends of the range -/

omit [Scalar α] [Region α T] in
theorem mem_otherOrders_iff (hroom : e.canvas.slots.size ≤ UInt32.size) {n : Int32} :
    n ∈ e.otherOrders k ↔ ∃ l x, l ≠ k ∧ e.canvas.get? l = some x ∧ x.order = n := by
  simp only [otherOrders, List.mem_map, List.mem_filter, Prod.exists,
    Canvas.mem_objects_iff hroom, decide_eq_true_eq]
  grind

omit [Scalar α] [Region α T] in
theorem others_iff (hroom : e.canvas.slots.size ≤ UInt32.size) {P : Int32 → Prop} :
    e.canvas.Others k P ↔ ∀ m ∈ e.otherOrders k, P m := by
  simp only [mem_otherOrders_iff hroom, Canvas.Others]
  grind

/-- **`restack` puts an object beyond all others** (`Beyond`). -/
theorem restack_restacks (s : End) (hroom : e.canvas.slots.size ≤ UInt32.size)
    (hd : e.canvas.get? k = some d) (hlimit : e.canvas.Others k (s.Beyond s.limit)) :
    ∃ moved n, (e.restack s k).Restacks e k d n moved ∧ e.canvas.Others k (s.Beyond n) ∧
      (moved = false ↔ e.canvas.Others k (s.Beyond d.order)) := by
  simp only [others_iff hroom] at hlimit ⊢
  rcases restack_of_live s hd with ⟨hbeyond, hreply⟩ | ⟨n, hmem, hall, hnot, hreply⟩
  · rw [hreply]
    exact ⟨false, d.order, restacks_of_kept hd, hbeyond, by simpa using hbeyond⟩
  · rw [hreply]
    refine ⟨true, s.next n, reorder_restacks hd _, fun m hm => ?_, ?_⟩
    · exact End.beyond_of_not_beyond (End.beyond_next (hlimit n hmem)) (hall m hm)
    · simp only [Bool.true_eq_false, false_iff]
      exact fun hbeyond => hnot (hbeyond n hmem)

theorem restack_of_beyond (s : End) (hroom : e.canvas.slots.size ≤ UInt32.size)
    (hd : e.canvas.get? k = some d) (hbeyond : e.canvas.Others k (s.Beyond d.order)) :
    e.restack s k = { answer := .ok false, editor := e } := by
  rcases restack_of_live s hd with ⟨-, hreply⟩ | ⟨n, hmem, -, hnot, -⟩
  · exact hreply
  · exact absurd ((others_iff hroom).mp hbeyond n hmem) hnot

omit [Scalar α] [Region α T] in
theorem Reply.Restacks.restacked {q : Reply α T (Except (Error α) Bool)} {n : Int32} {moved : Bool}
    (h : q.Restacks e k d n moved) (hroom : e.canvas.slots.size ≤ UInt32.size)
    (hd : e.canvas.get? k = some d) :
    e.canvas.Restacked q.editor.canvas k d n ∧ q.editor.canvas.slots.size ≤ UInt32.size := by
  rw [h.canvas, Canvas.size_put]
  exact ⟨Canvas.restacked_put hroom hd n, hroom⟩

/-- **`raise` and `lower` put an object at the end of the painting order.** -/
theorem restacking_reaches_end (settings : Settings α) (rs : List (Request α T))
    (hplaced : rs.countP Request.places < UInt32.size) :
    let e := (ofSettings settings).run rs
    ∀ k d, e.canvas.get? k = some d →
    (e.canvas.Others k (· < Int32.maxValue) →
      let q := e.raise k
      ∃ moved n, q.answer = .ok moved ∧ (moved = false ↔ e.canvas.Others k (· < d.order)) ∧
        e.canvas.Restacked q.editor.canvas k d n ∧ q.editor.canvas.Others k (· < n) ∧
        (d.flags.visible = true → q.editor.canvas.drawList.getLast? = some k) ∧
        (∀ p, d.flags.pickable = true → d.covers p = true → q.editor.canvas.hitTest p = some k) ∧
        q.editor.raise k = { answer := .ok false, editor := q.editor }) ∧
    (e.canvas.Others k (Int32.minValue < ·) →
      let q := e.lower k
      ∃ moved n, q.answer = .ok moved ∧ (moved = false ↔ e.canvas.Others k (d.order < ·)) ∧
        e.canvas.Restacked q.editor.canvas k d n ∧ q.editor.canvas.Others k (n < ·) ∧
        (d.flags.visible = true → q.editor.canvas.drawList.head? = some k) ∧
        (∀ p, q.editor.canvas.hitTest p = some k → ∀ l x, l ≠ k →
          q.editor.canvas.get? l = some x → ¬(x.flags.pickable = true ∧ x.covers p = true)) ∧
        q.editor.lower k = { answer := .ok false, editor := q.editor }) := by
  intro e k d hd
  have hroom : e.canvas.slots.size ≤ UInt32.size := by
    have hsize : e.canvas.slots.size = 0 + rs.countP Request.places := slots_size_run _ rs
    omega
  refine ⟨fun hlimit => ?_, fun hlimit => ?_⟩
  · intro q
    obtain ⟨moved, n, hrestacks, hbelow, hmoved⟩ := restack_restacks .top hroom hd hlimit
    obtain ⟨hrestacked, hroom'⟩ := hrestacks.restacked hroom hd
    have hhighest := hrestacked.keeps_others hbelow
    refine ⟨moved, n, hrestacks.answer, hmoved, hrestacked, hhighest, fun hvisible => ?_,
      fun p hpickable hcovers => ?_, restack_of_beyond .top hroom' hrestacked.object hhighest⟩
    · exact Canvas.getLast?_drawList_of_highest hroom' hrestacked.object hhighest hvisible
    · exact Canvas.hitTest_of_highest hroom' hrestacked.object hhighest hpickable hcovers
  · intro q
    obtain ⟨moved, n, hrestacks, habove, hmoved⟩ := restack_restacks .bottom hroom hd hlimit
    obtain ⟨hrestacked, hroom'⟩ := hrestacks.restacked hroom hd
    have hlowest := hrestacked.keeps_others habove
    refine ⟨moved, n, hrestacks.answer, hmoved, hrestacked, hlowest, fun hvisible => ?_,
      fun p hhit l x hl hx => ?_, restack_of_beyond .bottom hroom' hrestacked.object hlowest⟩
    · exact Canvas.head?_drawList_of_lowest hroom' hrestacked.object hlowest hvisible
    · exact Canvas.not_pickable_of_lowest hroom' hrestacked.object hlowest hhit hl hx

theorem restacking_reaches_end_hidden :
    let square (order : Int32) (flags : Flags) : Drawable Float (Shape Float) :=
      ⟨.rect ⟨0, 0, 10, 10⟩, .identity, order, flags⟩
    let rs : List (Request Float (Shape Float)) :=
      [.load (square 3 default), .load (square (-4) default), .add (square 8 ⟨false, true⟩)]
    let e : Editor Float (Shape Float) := (ofSettings default).run rs
    rs.countP Request.places < UInt32.size ∧ e.canvas.get? ⟨0⟩ = some (square 3 default) ∧
      e.canvas.Others ⟨0⟩ (· < Int32.maxValue) ∧ e.canvas.Others ⟨0⟩ (Int32.minValue < ·) ∧
      (e.raise ⟨0⟩).editor.canvas.drawList.getLast? = some ⟨0⟩ ∧
      (e.raise ⟨0⟩).editor.canvas.hitTest ⟨5, 5⟩ = some ⟨0⟩ ∧
      (e.lower ⟨0⟩).editor.canvas.drawList.head? = some ⟨0⟩ ∧
      ((e.lower ⟨0⟩).editor.lower ⟨0⟩).answer = .ok false := by
  intro square rs e
  have hplaced : rs.countP Request.places < UInt32.size := by decide
  have hroom : e.canvas.slots.size ≤ UInt32.size := by decide +kernel
  have hlive : e.canvas.get? ⟨0⟩ = some (square 3 default) := by decide +kernel
  have horders : e.otherOrders ⟨0⟩ = [-4, 8] := by decide +kernel
  have hbelow : e.canvas.Others ⟨0⟩ (· < Int32.maxValue) := by
    rw [others_iff hroom, horders, List.forall_mem_cons, List.forall_mem_singleton]
    decide
  have habove : e.canvas.Others ⟨0⟩ (Int32.minValue < ·) := by
    rw [others_iff hroom, horders, List.forall_mem_cons, List.forall_mem_singleton]
    decide
  have hcovers : (square 3 default).covers ⟨5, 5⟩ = true := by decide +kernel
  obtain ⟨hraise, hlower⟩ := restacking_reaches_end default rs hplaced ⟨0⟩ _ hlive
  obtain ⟨-, -, -, -, -, -, hlast, hpicked, -⟩ := hraise hbelow
  obtain ⟨-, -, -, -, -, -, hfirst, -, hagain⟩ := hlower habove
  -- the name would have the session run again to see that the two sides are the same
  subst e
  exact ⟨hplaced, hlive, hbelow, habove, hlast rfl, hpicked ⟨5, 5⟩ rfl hcovers, hfirst rfl,
    congrArg Reply.answer hagain⟩

/-! ## At the ends of the range -/

/-- The order of the object of a key. -/
def order? (e : Editor α T) (k : Key) : Option Int32 := (e.canvas.get? k).map (·.order)

omit [Scalar α] [Region α T] in
theorem order?_of_live (hd : e.canvas.get? k = some d) : e.order? k = some d.order := by
  rw [order?, hd, Option.map_some]

omit [Scalar α] [Region α T] in
/-- A move to the order where the object was is recorded, but leaves the drawing alone. -/
theorem Reply.Restacks.moves_iff {q : Reply α T (Except (Error α) Bool)} {n : Int32} {moved : Bool}
    (h : q.Restacks e k d n moved) (hd : e.canvas.get? k = some d) {idle : Prop}
    (hidle : moved = true ∧ n = d.order ↔ idle) :
    ((q.answer = .ok true → q.editor.order? k ≠ e.order? k) ↔ ¬idle) ∧
      (idle → q.answer = .ok true ∧ q.editor.canvas = e.canvas ∧
        q.editor.history = e.history.push (.reorder k d.order d.order)) := by
  have hslot := Canvas.get?_eq_some_iff.mp hd
  have hafter : q.editor.canvas.get? k = some { d with order := n } := by
    rw [h.canvas, Canvas.get?_put_self hslot]
  rw [h.answer, order?_of_live hafter, order?_of_live hd, ← hidle]
  refine ⟨by simp, ?_⟩
  rintro ⟨rfl, rfl⟩
  exact ⟨rfl, h.canvas.trans (Canvas.put_of_slot? hslot), h.history⟩

theorem restack_idle_iff (s : End) (hd : e.canvas.get? k = some d) :
    ∃ moved n, (e.restack s k).Restacks e k d n moved ∧
      (moved = true ∧ n = d.order ↔ d.order = s.limit ∧ s.limit ∈ e.otherOrders k) := by
  rcases restack_of_live s hd with ⟨hbeyond, hreply⟩ | ⟨n, hmem, hall, hnot, hreply⟩
  · rw [hreply]
    refine ⟨false, d.order, restacks_of_kept hd, ?_⟩
    simp only [Bool.false_eq_true, false_and, false_iff, not_and]
    intro horder hlimit
    exact End.not_beyond_self (horder ▸ hbeyond _ hlimit)
  · rw [hreply]
    refine ⟨true, s.next n, reorder_restacks hd _, ?_⟩
    rw [End.next_eq_iff hnot]
    refine ⟨fun ⟨_, horder, hn⟩ => ⟨horder, hn ▸ hmem⟩, fun ⟨horder, hlimit⟩ => ?_⟩
    exact ⟨rfl, horder, End.eq_limit_of_not_beyond (hall _ hlimit)⟩

/-- **What is answered to have moved has moved, save at the ends of the range of orders.** -/
theorem restacking_moves_iff (e : Editor α T) (k : Key) :
    (((e.raise k).answer = .ok true → (e.raise k).editor.order? k ≠ e.order? k) ↔
      ¬(e.order? k = some Int32.maxValue ∧ Int32.maxValue ∈ e.otherOrders k)) ∧
    (((e.lower k).answer = .ok true → (e.lower k).editor.order? k ≠ e.order? k) ↔
      ¬(e.order? k = some Int32.minValue ∧ Int32.minValue ∈ e.otherOrders k)) ∧
    (e.order? k = some Int32.maxValue ∧ Int32.maxValue ∈ e.otherOrders k →
      (e.raise k).answer = .ok true ∧ (e.raise k).editor.canvas = e.canvas ∧
        (e.raise k).editor.history =
          e.history.push (.reorder k Int32.maxValue Int32.maxValue)) ∧
    (e.order? k = some Int32.minValue ∧ Int32.minValue ∈ e.otherOrders k →
      (e.lower k).answer = .ok true ∧ (e.lower k).editor.canvas = e.canvas ∧
        (e.lower k).editor.history =
          e.history.push (.reorder k Int32.minValue Int32.minValue)) := by
  cases hd : e.canvas.get? k with
  | none => simp [raise, lower, restack, order?, hd]
  | some d =>
    have horder := order?_of_live hd
    obtain ⟨moved, n, hraise, hraised⟩ := restack_idle_iff .top hd
    obtain ⟨moved', n', hlower, hlowered⟩ := restack_idle_iff .bottom hd
    obtain ⟨hraiseIff, hraiseIdle⟩ := hraise.moves_iff hd hraised
    obtain ⟨hlowerIff, hlowerIdle⟩ := hlower.moves_iff hd hlowered
    rw [horder] at hraiseIff hlowerIff ⊢
    simp only [Option.some.injEq]
    refine ⟨hraiseIff, hlowerIff, fun hidle => ?_, fun hidle => ?_⟩
    · have hsame := hraiseIdle hidle
      rw [hidle.1] at hsame
      exact hsame
    · have hsame := hlowerIdle hidle
      rw [hidle.1] at hsame
      exact hsame

/-- Raising an object that shares the last order of all changes nothing but the history. -/
theorem raise_of_shared_last_order :
    let square (order : Int32) : Drawable Float (Shape Float) :=
      ⟨.rect ⟨0, 0, 10, 10⟩, .identity, order, default⟩
    let e : Editor Float (Shape Float) := (ofSettings default).run
      [.load (square Int32.maxValue), .load (square Int32.maxValue), .add (square 0), .undo]
    (e.raise ⟨0⟩).answer = .ok true ∧ (e.raise ⟨0⟩).editor.order? ⟨0⟩ = e.order? ⟨0⟩ ∧
      e.order? ⟨0⟩ = some Int32.maxValue ∧ e.history.done.length = 0 ∧
      e.history.undone.length = 1 ∧ (e.raise ⟨0⟩).editor.history.done.length = 1 ∧
      (e.raise ⟨0⟩).editor.history.undone.length = 0 :=
  ⟨rfl, rfl, rfl, rfl, rfl, rfl, rfl⟩

end Editor

end VectorEditor
