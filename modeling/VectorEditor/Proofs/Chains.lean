import Mathlib.Data.List.Chain
import Mathlib.Data.List.Infix
import VectorEditor.Proofs.Custody

/-!
# Chains of records

Undoing and redoing write back what a record remembers and compute nothing anew. That this is right
rests on the records of one object fitting together: each begins where the one before it ends, and
the object itself is where the records done and those undone meet (`Aspect.Linked`). It holds of the
transforms of an object and of its places in the painting order alike, which are two cases of an
aspect that some changes set and all others leave alone (`Aspect`).
-/

namespace VectorEditor

variable {α T β : Type}

/-! ## Chains -/

section chains

/-- The value before a change that leads from one value to another, or leaves it alone. -/
def valueBefore (span : Option (β × β)) (x : β) : β := (span.map Prod.fst).getD x

/-- The value after a change that leads from one value to another, or leaves it alone. -/
def valueAfter (span : Option (β × β)) (x : β) : β := (span.map Prod.snd).getD x

/-- The spans, first one first, lead on from a value. -/
def LeadsOn : β → List (β × β) → Prop
  | _, [] => True
  | x, (before, after) :: spans => before = x ∧ LeadsOn after spans

/-- The spans, last one first, lead back from a value. -/
def LeadsBack (x : β) (spans : List (β × β)) : Prop := LeadsOn x (spans.map Prod.swap)

variable {x : β} {span : Option (β × β)} {ps qs : List (β × β)}

theorem LeadsOn.mono (hf : LeadsOn x ps) (hle : qs <+: ps) : LeadsOn x qs := by
  induction qs generalizing x ps with
  | nil => exact trivial
  | cons q qs ih =>
    obtain ⟨rest, rfl⟩ := hle
    exact ⟨hf.1, ih hf.2 (List.prefix_append qs rest)⟩

theorem LeadsBack.mono (hb : LeadsBack x ps) (hle : qs <+: ps) : LeadsBack x qs :=
  LeadsOn.mono hb (hle.map Prod.swap)

theorem LeadsOn.head? (hf : LeadsOn x qs) {p : β × β} (hp : qs.head? = some p) : p.1 = x := by
  cases qs with
  | nil => cases hp
  | cons q qs =>
    cases hp
    exact hf.1

theorem LeadsBack.head? (hb : LeadsBack x ps) {p : β × β} (hp : ps.head? = some p) : p.2 = x := by
  refine LeadsOn.head? (p := p.swap) hb ?_
  rw [List.head?_map, hp, Option.map_some]

theorem LeadsBack.undo (hb : LeadsBack x (span.toList ++ ps)) (hf : LeadsOn x qs) :
    LeadsBack (valueBefore span x) ps ∧ LeadsOn (valueBefore span x) (span.toList ++ qs) := by
  cases span with
  | none => exact ⟨hb, hf⟩
  | some p =>
    obtain ⟨rfl, hb⟩ := hb
    exact ⟨hb, rfl, hf⟩

theorem LeadsBack.record (hb : LeadsBack x ps) (hspan : ∀ p, span = some p → p.1 = x) :
    LeadsBack (valueAfter span x) (span.toList ++ ps) := by
  cases span with
  | none => exact hb
  | some p =>
    obtain rfl := hspan p rfl
    exact ⟨rfl, hb⟩

theorem LeadsOn.redo (hb : LeadsBack x ps) (hf : LeadsOn x (span.toList ++ qs)) :
    LeadsBack (valueAfter span x) (span.toList ++ ps) ∧ LeadsOn (valueAfter span x) qs := by
  cases span with
  | none => exact ⟨hb, hf⟩
  | some p =>
    obtain ⟨rfl, hf⟩ := hf
    exact ⟨⟨rfl, hb⟩, hf⟩

theorem LeadsOn.isChain (hf : LeadsOn x qs) : qs.IsChain fun p q => p.2 = q.1 := by
  induction qs generalizing x with
  | nil => exact .nil
  | cons p qs ih =>
    obtain ⟨-, hrest⟩ := hf
    cases qs with
    | nil => exact .singleton p
    | cons q qs => exact .cons_cons hrest.1.symm (ih hrest)

/-- Spans that lead back and spans that lead on from one value form a single chain. -/
theorem LeadsBack.isChain (hb : LeadsBack x ps) (hf : LeadsOn x qs) :
    (ps.reverse ++ qs).IsChain fun p q => p.2 = q.1 := by
  induction ps generalizing x qs with
  | nil => exact hf.isChain
  | cons p ps ih =>
    obtain ⟨rfl, hb⟩ := hb
    rw [List.reverse_cons, List.append_assoc, List.singleton_append]
    exact ih hb ⟨rfl, hf⟩

end chains

/-! ## Records -/

namespace Change

/-- The object of a change: in its slot, or else in the hands of the change. -/
def object? (ch : Change α T) (s : Option (Drawable α T)) : Option (Drawable α T) := s.or ch.held

/-- The object as a change that has been made leaves it, up to its item. -/
def made (ch : Change α T) (d : Drawable α T) : Drawable α T :=
  match ch with
  | .transformation t => { d with transform := valueAfter t.committed d.transform }
  | .reorder _ _ new => { d with order := new }
  | _ => d

/-- The object as a change that has been taken back leaves it, up to its item. -/
def unmade (ch : Change α T) (d : Drawable α T) : Drawable α T :=
  match ch with
  | .transformation t => { d with transform := valueBefore t.committed d.transform }
  | .reorder _ old _ => { d with order := old }
  | _ => d

variable [Scalar α]

/-- A record of something that has been done: a transform has the inverse computed for it, and it
remembers where it began and what it led to. -/
def Settled (ch : Change α T) : Prop :=
  match ch with
  | .transformation t => t.transform.inverse? = .ok t.inverse ∧
      ∃ before, t.committed = some (before, t.frame.compose before t.transform)
  | _ => True

variable {ch ch' : Change α T} {c : Canvas α T} {s s' : Option (Drawable α T)}

theorem Settled.committed_ne {t : Transformation α} (hs : (transformation t : Change α T).Settled) :
    t.committed ≠ none := by
  obtain ⟨-, before, hbefore⟩ := hs
  rw [hbefore]
  nofun

theorem New.settled (hnew : ch.New c) (h : Applies ch s ch' s') : ch'.Settled := by
  cases h with
  | transform _ => exact ⟨hnew.1, _, rfl⟩
  | transformAgain hcommitted =>
    rw [hnew.2] at hcommitted
    cases hcommitted
  | _ => exact trivial

theorem Settled.of_applies (hs : ch.Settled) (h : Applies ch s ch' s') : ch'.Settled := by
  cases h with
  | transform hcommitted => exact absurd hcommitted hs.committed_ne
  | transformAgain _ => exact hs
  | _ => exact trivial

theorem Settled.of_reverts (hs : ch.Settled) (h : Reverts ch s ch' s') : ch'.Settled := by
  cases h with
  | transform _ => exact hs
  | invert _ => exact hs
  | _ => exact trivial

theorem Applies.object? (h : Applies ch s ch' s') :
    ∃ d item, ch.object? s = some d ∧ ch'.object? s' = some { ch'.made d with item } ∧
      (s' = none ∨ ch'.held = none) := by
  cases h with
  | @transform t d _ => exact ⟨d, d.item, rfl, rfl, .inr rfl⟩
  | @transformAgain t d before after hcommitted =>
    refine ⟨d, d.item, rfl, ?_, .inr rfl⟩
    rw [made, hcommitted]
    rfl
  | @create k d => exact ⟨d, d.item, rfl, rfl, .inr rfl⟩
  | @delete k d => exact ⟨d, d.item, rfl, rfl, .inl rfl⟩
  | @reorder k old new d => exact ⟨d, d.item, rfl, rfl, .inr rfl⟩
  | @edit k item d => exact ⟨d, item, rfl, rfl, .inr rfl⟩

theorem Reverts.object? (h : Reverts ch s ch' s') (hs : ch.Settled) :
    ∃ d item, ch.object? s = some d ∧ ch'.object? s' = some { ch.unmade d with item } ∧
      (s' = none ∨ ch'.held = none) := by
  cases h with
  | @transform t d before after hcommitted =>
    refine ⟨d, d.item, rfl, ?_, .inr rfl⟩
    rw [unmade, hcommitted]
    rfl
  | invert hcommitted => exact absurd hcommitted hs.committed_ne
  | @create k d => exact ⟨d, d.item, rfl, rfl, .inl rfl⟩
  | @delete k d => exact ⟨d, d.item, rfl, rfl, .inr rfl⟩
  | @reorder k old new d => exact ⟨d, d.item, rfl, rfl, .inr rfl⟩
  | @edit k item d => exact ⟨d, item, rfl, rfl, .inr rfl⟩

end Change

/-! ## Aspects -/

/-- Something about an object that some changes set, with the values before and after that such a
change remembers. All other changes leave it as it is. -/
structure Aspect (α T β : Type) [Scalar α] where
  /-- The value of an object. -/
  value : Drawable α T → β
  /-- The values before and after a change that sets it. -/
  span : Change α T → Option (β × β)
  value_item : ∀ d item, value { d with item } = value d
  value_made : ∀ ch d, value (ch.made d) = valueAfter (span ch) (value d)
  value_unmade : ∀ ch d, value (ch.unmade d) = valueBefore (span ch) (value d)
  span_creation : ∀ k held, span (.creation k held) = none
  span_of_applies : ∀ {ch ch' s s'}, ch.Settled → Change.Applies ch s ch' s' → span ch' = span ch
  span_of_reverts : ∀ {ch ch' s s'}, Change.Reverts ch s ch' s' → span ch' = span ch
  span_of_new : ∀ {ch ch' c s s' p}, ch.New c → c.slot? ch.key = some s →
    Change.Applies ch s ch' s' → span ch' = some p → ∃ d, s = some d ∧ p.1 = value d

namespace Aspect

variable [Scalar α]

/-- The transform of an object, set by transformations. -/
def placing : Aspect α T (Affine α) where
  value d := d.transform
  span
    | .transformation t => t.committed
    | _ => none
  value_item _ _ := rfl
  value_made ch d := by cases ch <;> rfl
  value_unmade ch d := by cases ch <;> rfl
  span_creation _ _ := rfl
  span_of_applies hs h := by
    cases h with
    | transform hcommitted => exact absurd hcommitted hs.committed_ne
    | _ => rfl
  span_of_reverts h := by cases h <;> rfl
  span_of_new hnew _ h hp := by
    cases h with
    | transform _ =>
      cases hp
      exact ⟨_, rfl, rfl⟩
    | transformAgain hcommitted =>
      rw [hnew.2] at hcommitted
      cases hcommitted
    | _ => cases hp

/-- The place of an object in the painting order, set by reorderings. -/
def painting : Aspect α T Int32 where
  value d := d.order
  span
    | .reorder _ old new => some (old, new)
    | _ => none
  value_item _ _ := rfl
  value_made ch d := by cases ch <;> rfl
  value_unmade ch d := by cases ch <;> rfl
  span_creation _ _ := rfl
  span_of_applies _ h := by cases h <;> rfl
  span_of_reverts h := by cases h <;> rfl
  span_of_new hnew hslot h hp := by
    cases h with
    | reorder =>
      cases hp
      exact ⟨_, rfl, hnew.fits hslot⟩
    | _ => cases hp

variable (A : Aspect α T β)

/-- The spans of those changes that belong to a key and set the value. -/
def spans (k : Key) (chs : List (Change α T)) : List (β × β) :=
  chs.filterMap fun ch => if ch.key = k then A.span ch else none

variable {A} {k : Key} {ch : Change α T}

theorem spans_cons_self (hkey : ch.key = k) (chs : List (Change α T)) :
    A.spans k (ch :: chs) = (A.span ch).toList ++ A.spans k chs := by
  simp only [spans, List.filterMap_cons, if_pos hkey]
  cases A.span ch <;> rfl

theorem spans_cons_ne (hkey : ch.key ≠ k) (chs : List (Change α T)) :
    A.spans k (ch :: chs) = A.spans k chs := by
  simp only [spans, List.filterMap_cons, if_neg hkey]

theorem spans_mono {chs chs' : List (Change α T)} (h : chs' <+: chs) :
    A.spans k chs' <+: A.spans k chs :=
  h.filterMap _

theorem spans_eq_nil {chs : List (Change α T)} (h : ∀ ch ∈ chs, ch.key ≠ k) :
    A.spans k chs = [] := by
  rw [spans, List.filterMap_eq_nil_iff]
  exact fun ch hch => if_neg (h ch hch)

theorem spans_entries (h : History (Change α T)) :
    A.spans k h.entries = (A.spans k h.done).reverse ++ A.spans k h.undone := by
  rw [spans, History.entries, List.filterMap_append, List.filterMap_reverse]
  rfl

end Aspect

/-! ## Objects and their records -/

/-- The object of a key, on the canvas or held by a record. -/
def Has (c : Canvas α T) (h : History (Change α T)) (k : Key) (d : Drawable α T) : Prop :=
  c.get? k = some d ∨ ∃ ch ∈ h.entries, ch.key = k ∧ ch.held = some d

section has

variable {c : Canvas α T} {h h' : History (Change α T)} {ch ch' : Change α T} {k : Key}
  {s s' : Option (Drawable α T)} {d : Drawable α T}

theorem has_put_self (hslot : c.slot? ch.key = some s) (halone : s' = none ∨ ch.held = none)
    (hothers : ∀ a ∈ h.entries, a = ch ∨ a.holds ch.key = false)
    (hhas : Has (c.put ch.key s') h ch.key d) : ch.object? s' = some d := by
  rcases hhas with hcanvas | ⟨a, ha, hkey, hheld⟩
  · rw [Canvas.get?_put_self hslot] at hcanvas
    rw [Change.object?, hcanvas, Option.some_or]
  · rcases hothers a ha with rfl | hnot
    · rcases halone with rfl | hnone
      · rw [Change.object?, hheld, Option.none_or]
      · rw [hnone] at hheld
        cases hheld
    · have hholds : a.holds ch.key = true :=
        Change.holds_iff.mpr ⟨hkey, by rw [hheld, Option.isSome_some]⟩
      rw [hnot] at hholds
      cases hholds

theorem has_put_ne (hk : ch.key ≠ k) (hmem : ∀ a ∈ h'.entries, a = ch ∨ a ∈ h.entries)
    (hhas : Has (c.put ch.key s') h' k d) : Has c h k d := by
  rcases hhas with hcanvas | ⟨a, ha, hkey, hheld⟩
  · rw [Canvas.get?_put_ne hk.symm] at hcanvas
    exact .inl hcanvas
  · rcases hmem a ha with rfl | ha
    · exact absurd hkey hk
    · exact .inr ⟨a, ha, hkey, hheld⟩

theorem has_of_object? (hslot : c.slot? ch.key = some s) (hmem : ch.held = none ∨ ch ∈ h.entries)
    (hd : ch.object? s = some d) : Has c h ch.key d := by
  rcases Option.or_eq_some_iff.mp hd with rfl | ⟨-, hheld⟩
  · exact .inl (Canvas.get?_of_slot? hslot)
  · rcases hmem with hnone | hmem
    · rw [hnone] at hheld
      cases hheld
    · exact .inr ⟨ch, hmem, rfl, hheld⟩

theorem Custody.not_holds_of_object? (hc : Custody c h) {pre post : List (Change α T)}
    (he : h.entries = pre ++ ch :: post) (hslot : c.slot? ch.key = some s)
    (hd : ch.object? s = some d) : ∀ a ∈ pre ++ post, a.holds ch.key = false := by
  have hle := hc.copies_le ch.key
  have hone : 1 ≤ (c.contains ch.key).toNat + (ch.holds ch.key).toNat := by
    rw [Canvas.contains_eq, Canvas.get?_of_slot? hslot]
    rcases Option.or_eq_some_iff.mp hd with rfl | ⟨-, hheld⟩
    · rw [Option.isSome_some, Bool.toNat_true]
      omega
    · have hholds : ch.holds ch.key = true :=
        Change.holds_iff.mpr ⟨rfl, by rw [hheld, Option.isSome_some]⟩
      rw [hholds, Bool.toNat_true]
      omega
  rw [copies, he, List.countP_append, countP_holds_cons] at hle
  have hzero : (pre ++ post).countP (·.holds ch.key) = 0 := by
    rw [List.countP_append]
    omega
  intro a ha
  exact Bool.eq_false_iff.mpr (List.countP_eq_zero.mp hzero a ha)

/-- A record is exchanged for what becomes of it: nobody else has its object. -/
theorem Custody.has_replace_self (hc : Custody c h) {pre post : List (Change α T)}
    (he : h.entries = pre ++ ch :: post) (he' : h'.entries = pre ++ ch' :: post)
    (hkey : ch'.key = ch.key) (hslot : c.slot? ch.key = some s) {d₁ : Drawable α T}
    (hd : ch.object? s = some d) (hd₁ : ch'.object? s' = some d₁)
    (halone : s' = none ∨ ch'.held = none) :
    Has c h ch.key d ∧ ∀ d', Has (c.put ch.key s') h' ch.key d' → d' = d₁ := by
  have hmem : ch ∈ h.entries := by simp [he]
  refine ⟨has_of_object? hslot (.inr hmem) hd, fun d' hhas => ?_⟩
  have hnot := hc.not_holds_of_object? he hslot hd
  rw [← hkey] at hhas hslot hnot
  have hothers : ∀ a ∈ h'.entries, a = ch' ∨ a.holds ch'.key = false := by
    intro a ha
    rw [he', List.mem_append, List.mem_cons] at ha
    rcases ha with ha | rfl | ha
    · exact .inr (hnot a (List.mem_append_left _ ha))
    · exact .inl rfl
    · exact .inr (hnot a (List.mem_append_right _ ha))
  have hobject := has_put_self hslot halone hothers hhas
  rw [hd₁] at hobject
  exact (Option.some.inj hobject).symm

theorem has_replace_ne {pre post : List (Change α T)} (he : h.entries = pre ++ ch :: post)
    (he' : h'.entries = pre ++ ch' :: post) (hkey : ch'.key = ch.key) (hk : ch.key ≠ k)
    (hhas : Has (c.put ch.key s') h' k d) : Has c h k d := by
  rw [← hkey] at hhas hk
  refine has_put_ne hk (fun a ha => ?_) hhas
  rw [he', List.mem_append, List.mem_cons] at ha
  rw [he, List.mem_append, List.mem_cons]
  rcases ha with ha | rfl | ha
  · exact .inr (.inl ha)
  · exact .inl rfl
  · exact .inr (.inr (.inr ha))

theorem Lineage.exists_has (hl : Lineage c h) (hmem : ch ∈ h.entries) :
    ∃ d, Has c h ch.key d := by
  have hpresent := hl.present ch hmem
  rw [copies, Canvas.contains_eq] at hpresent
  cases hcanvas : c.get? ch.key with
  | some d => exact ⟨d, .inl hcanvas⟩
  | none =>
    rw [hcanvas, Option.isSome_none, Bool.toNat_false, Nat.zero_add] at hpresent
    obtain ⟨a, ha, hholds⟩ := List.countP_pos_iff.mp hpresent
    obtain ⟨hkey, hheld⟩ := Change.holds_iff.mp hholds
    obtain ⟨d, hd⟩ := Option.isSome_iff_exists.mp hheld
    exact ⟨d, .inr ⟨a, ha, hkey, hd⟩⟩

theorem Custody.not_holds_of_live (hc : Custody c h) (hslot : c.slot? k = some (some d)) :
    ∀ a ∈ h.entries, a.holds k = false := by
  intro a ha
  rw [Bool.eq_false_iff]
  intro hholds
  obtain ⟨rfl, hheld⟩ := Change.holds_iff.mp hholds
  rw [hc.vacant_of_held ha hheld] at hslot
  cases hslot

end has

theorem History.done_push_isPrefix {C : Type} (h : History C) (c : C) :
    (h.push c).done <+: c :: h.done := by
  simp only [History.push, History.keep]
  cases h.limit with
  | none => exact List.prefix_refl _
  | some n => exact List.take_prefix n _

theorem History.mem_entries_push {C : Type} {h : History C} {c a : C}
    (ha : a ∈ (h.push c).entries) : a = c ∨ a ∈ h.done := by
  rcases mem_entries.mp ha with ha | ha
  · exact List.mem_cons.mp ((h.done_push_isPrefix c).subset ha)
  · cases ha

/-! ## What a request keeps -/

namespace Aspect

variable [Scalar α]

/-- The records of a key lead from one value to the next, and its object has the one at which those
done and those undone meet. -/
def Chained (A : Aspect α T β) (c : Canvas α T) (h : History (Change α T)) (k : Key) : Prop :=
  ∃ x, LeadsBack x (A.spans k h.done) ∧ LeadsOn x (A.spans k h.undone) ∧
    ∀ d, Has c h k d → A.value d = x

namespace Chained

variable {A : Aspect α T β} {c c' : Canvas α T} {h h' : History (Change α T)}
  {ch ch' : Change α T} {rest : List (Change α T)} {k : Key}

/-- Forgetting the ends of the chain, and whatever does not touch the value of the object. -/
theorem mono (hk : A.Chained c h k) (hdone : A.spans k h'.done <+: A.spans k h.done)
    (hundone : A.spans k h'.undone <+: A.spans k h.undone)
    (hhas : ∀ d', Has c' h' k d' → ∃ d, Has c h k d ∧ A.value d' = A.value d) :
    A.Chained c' h' k := by
  obtain ⟨x, hback, hon, hx⟩ := hk
  refine ⟨x, hback.mono hdone, hon.mono hundone, fun d' hd' => ?_⟩
  obtain ⟨d, hd, hvalue⟩ := hhas d' hd'
  exact hvalue.trans (hx d hd)

theorem extend (hk : A.Chained c h k) (hc : Custody c h) (d : Drawable α T) :
    A.Chained (c.extend (some d)) h k := by
  by_cases hslot : k.slot = c.slots.size
  · -- a key that is only now given out has no records
    have hnone : ∀ ch ∈ h.entries, ch.key ≠ k := by
      rintro ch hch rfl
      have hissued := hc.issued ch hch
      rw [Canvas.isSome_slot?_iff] at hissued
      omega
    have hdone : A.spans k h.done = [] :=
      spans_eq_nil fun ch hch => hnone ch (History.mem_entries.mpr (.inl hch))
    have hundone : A.spans k h.undone = [] :=
      spans_eq_nil fun ch hch => hnone ch (History.mem_entries.mpr (.inr hch))
    refine ⟨A.value d, ?_, ?_, fun d' hd' => ?_⟩
    · rw [hdone]
      exact trivial
    · rw [hundone]
      exact trivial
    · rcases hd' with hcanvas | ⟨ch, hch, hkey, -⟩
      · rw [Canvas.get?_of_slot? (Canvas.slot?_extend_self hslot (some d))] at hcanvas
        cases hcanvas
        rfl
      · exact absurd hkey (hnone ch hch)
  · refine hk.mono (List.prefix_refl _) (List.prefix_refl _) fun d' hd' => ⟨d', ?_, rfl⟩
    rcases hd' with hcanvas | hheld
    · rw [Canvas.get?_eq_join, Canvas.slot?_extend_ne hslot] at hcanvas
      exact .inl hcanvas
    · exact .inr hheld

theorem pushCreation (hk : A.Chained c h k) (l : Key) :
    A.Chained c (h.push (.creation l none)) k := by
  have hspans : A.spans k (.creation l none :: h.done) = A.spans k h.done := by
    by_cases hl : (Change.creation l none : Change α T).key = k
    · rw [spans_cons_self hl, A.span_creation]
      rfl
    · exact spans_cons_ne hl _
  refine hk.mono ?_ List.nil_prefix fun d hd => ⟨d, ?_, rfl⟩
  · rw [← hspans]
    exact spans_mono (h.done_push_isPrefix _)
  · rcases hd with hcanvas | ⟨a, ha, hkey, hheld⟩
    · exact .inl hcanvas
    · rcases History.mem_entries_push ha with rfl | ha
      · cases hheld
      · exact .inr ⟨a, History.mem_entries.mpr (.inl ha), hkey, hheld⟩

theorem putItem (hk : A.Chained c h k) {l : Key} {d : Drawable α T}
    (hslot : c.slot? l = some (some d)) (item : T) :
    A.Chained (c.put l (some { d with item })) h k := by
  refine hk.mono (List.prefix_refl _) (List.prefix_refl _) fun d' hd' => ?_
  rcases hd' with hcanvas | hheld
  · by_cases hl : k = l
    · subst hl
      rw [Canvas.get?_put_self hslot] at hcanvas
      cases hcanvas
      exact ⟨d, .inl (Canvas.get?_of_slot? hslot), A.value_item d item⟩
    · rw [Canvas.get?_put_ne hl] at hcanvas
      exact ⟨d', .inl hcanvas, rfl⟩
  · exact ⟨d', .inr hheld, rfl⟩

variable [Region α T]

theorem push (hk : A.Chained c h k) (hc : Custody c h) (hnew : ch.New c)
    (happly : ch.apply c = ⟨ch', c', none⟩) : A.Chained c' (h.push ch') k := by
  obtain ⟨s, s', hslot, happlies, rfl⟩ := Change.apply_eq_ok happly
  have hkey := happlies.key_eq
  have hkept := A.spans_mono (h.done_push_isPrefix ch') (k := k)
  by_cases hown : ch'.key = k
  · subst hown
    obtain ⟨x, hback, -, hx⟩ := hk
    obtain ⟨d, item, hd, hd', halone⟩ := happlies.object?
    have hvalue : A.value d = x := by
      refine hx d ?_
      rw [hkey]
      exact has_of_object? hslot (.inl hnew.held_eq) hd
    have hspan : ∀ p, A.span ch' = some p → p.1 = x := by
      intro p hp
      obtain ⟨d₀, rfl, hbegin⟩ := A.span_of_new hnew hslot happlies hp
      rw [Change.object?, Option.some_or] at hd
      rw [hbegin, Option.some.inj hd, hvalue]
    have hlive : s = some d := by
      rwa [Change.object?, hnew.held_eq, Option.or_none] at hd
    refine ⟨valueAfter (A.span ch') x, ?_, trivial, fun d' hhas => ?_⟩
    · rw [spans_cons_self rfl] at hkept
      exact (hback.record hspan).mono hkept
    · rw [← hkey] at hhas hslot
      rw [hlive] at hslot
      have hothers : ∀ a ∈ (h.push ch').entries, a = ch' ∨ a.holds ch'.key = false := by
        intro a ha
        rcases History.mem_entries_push ha with rfl | ha
        · exact .inl rfl
        · exact .inr (hc.not_holds_of_live hslot a (History.mem_entries.mpr (.inl ha)))
      have hobject := has_put_self hslot halone hothers hhas
      rw [hd'] at hobject
      cases hobject
      rw [A.value_item, A.value_made, hvalue]
  · rw [spans_cons_ne hown] at hkept
    refine hk.mono hkept List.nil_prefix fun d hhas => ⟨d, ?_, rfl⟩
    rw [← hkey] at hhas
    refine has_put_ne hown (fun a ha => ?_) hhas
    exact (History.mem_entries_push ha).imp_right fun ha => History.mem_entries.mpr (.inl ha)

theorem undo (hk : A.Chained c h k) (hc : Custody c h) (hs : ch.Settled)
    (hdone : h.done = ch :: rest) (hrevert : ch.revert c = ⟨ch', c', none⟩)
    (hdone' : h'.done = rest) (hundone' : h'.undone = ch' :: h.undone) : A.Chained c' h' k := by
  obtain ⟨s, s', hslot, hreverts, rfl⟩ := Change.revert_eq_ok hrevert
  have hkey := hreverts.key_eq
  have he := History.entries_of_done hdone
  have he' : h'.entries = rest.reverse ++ ch' :: h.undone := by
    rw [History.entries, hdone', hundone']
  by_cases hown : ch.key = k
  · subst hown
    obtain ⟨x, hback, hon, hx⟩ := hk
    rw [hdone, spans_cons_self rfl] at hback
    obtain ⟨hback, hon⟩ := hback.undo hon
    obtain ⟨d, item, hd, hd', halone⟩ := hreverts.object? hs
    obtain ⟨hhas, hsole⟩ := hc.has_replace_self he he' hkey hslot hd hd' halone
    refine ⟨valueBefore (A.span ch) x, ?_, ?_, fun d' hd' => ?_⟩
    · rw [hdone']
      exact hback
    · rw [hundone', spans_cons_self hkey, A.span_of_reverts hreverts]
      exact hon
    · rw [hsole d' hd', A.value_item, A.value_unmade, hx d hhas]
  · refine hk.mono ?_ ?_ fun d hhas => ⟨d, has_replace_ne he he' hkey hown hhas, rfl⟩
    · rw [hdone', hdone, spans_cons_ne hown]
    · rw [hundone', spans_cons_ne (hkey ▸ hown)]

theorem redo (hk : A.Chained c h k) (hc : Custody c h) (hs : ch.Settled)
    (hundone : h.undone = ch :: rest) (happly : ch.apply c = ⟨ch', c', none⟩)
    (hdone' : h'.done = ch' :: h.done) (hundone' : h'.undone = rest) : A.Chained c' h' k := by
  obtain ⟨s, s', hslot, happlies, rfl⟩ := Change.apply_eq_ok happly
  have hkey := happlies.key_eq
  have he := History.entries_of_undone hundone
  have he' : h'.entries = h.done.reverse ++ ch' :: rest := by
    rw [History.entries_of_done hdone', hundone']
  by_cases hown : ch.key = k
  · subst hown
    obtain ⟨x, hback, hon, hx⟩ := hk
    rw [hundone, spans_cons_self rfl] at hon
    obtain ⟨hback, hon⟩ := LeadsOn.redo hback hon
    have hspan := A.span_of_applies hs happlies
    obtain ⟨d, item, hd, hd', halone⟩ := happlies.object?
    obtain ⟨hhas, hsole⟩ := hc.has_replace_self he he' hkey hslot hd hd' halone
    refine ⟨valueAfter (A.span ch) x, ?_, ?_, fun d' hd' => ?_⟩
    · rw [hdone', spans_cons_self hkey, hspan]
      exact hback
    · rw [hundone']
      exact hon
    · rw [hsole d' hd', A.value_item, A.value_made, hspan, hx d hhas]
  · refine hk.mono ?_ ?_ fun d hhas => ⟨d, has_replace_ne he he' hkey hown hhas, rfl⟩
    · rw [hdone', spans_cons_ne (hkey ▸ hown)]
    · rw [hundone', hundone, spans_cons_ne hown]

end Chained

/-- The records of every key, oldest first, each begin where the one before ends, and its object has
the value at which the last one done ends and the first one undone begins. -/
def Linked (A : Aspect α T β) (c : Canvas α T) (h : History (Change α T)) : Prop :=
  ∀ k, ((A.spans k h.entries).IsChain fun p q => p.2 = q.1) ∧
    ∀ d, Has c h k d →
      (∀ p, (A.spans k h.done).head? = some p → p.2 = A.value d) ∧
      (∀ p, (A.spans k h.undone).head? = some p → p.1 = A.value d)

theorem linked_of_chained {A : Aspect α T β} {c : Canvas α T} {h : History (Change α T)}
    (hchained : ∀ k, A.Chained c h k) : A.Linked c h := by
  intro k
  obtain ⟨x, hback, hon, hx⟩ := hchained k
  refine ⟨?_, fun d hd => ⟨fun p hp => ?_, fun p hp => ?_⟩⟩
  · rw [spans_entries]
    exact hback.isChain hon
  · rw [hx d hd]
    exact hback.head? hp
  · rw [hx d hd]
    exact hon.head? hp

end Aspect

/-! ## The editor -/

namespace Editor

variable [Scalar α]

theorem chained_ofSettings [Inhabited β] (A : Aspect α T β) (settings : Settings α) (k : Key) :
    A.Chained (ofSettings settings : Editor α T).canvas
      (ofSettings settings : Editor α T).history k := by
  refine ⟨default, trivial, trivial, fun d hd => ?_⟩
  rcases hd with hcanvas | ⟨ch, hch, -⟩
  · simp [ofSettings, Canvas.get?, Canvas.empty] at hcanvas
  · cases hch

variable [Region α T] {e : Editor α T} {r : Request α T} {q : Reply α T (Answer α)}

theorem Performed.settled (hq : Performed e q r) (hs : ∀ ch ∈ e.history.entries, ch.Settled) :
    ∀ ch ∈ q.editor.history.entries, ch.Settled := by
  cases hq with
  | kept hkeeps =>
    rw [hkeeps.history]
    exact hs
  | made _ hask happly hhistory _ =>
    obtain ⟨s, s', -, happlies, -⟩ := Change.apply_eq_ok happly
    intro a ha
    rw [hhistory] at ha
    rcases History.mem_entries_push ha with rfl | ha
    · exact (asked_new hask).settled happlies
    · exact hs a (History.mem_entries.mpr (.inl ha))
  | @undone ch ch' rest hdone hrevert hhistory _ =>
    obtain ⟨s, s', -, hreverts, -⟩ := Change.revert_eq_ok hrevert
    have hch := hs ch (by simp [History.mem_entries, hdone])
    intro a ha
    rw [hhistory, History.mem_entries, List.mem_cons] at ha
    rcases ha with ha | rfl | ha
    · exact hs a (by simp [History.mem_entries, hdone, ha])
    · exact hch.of_reverts hreverts
    · exact hs a (History.mem_entries.mpr (.inr ha))
  | @redone ch ch' rest hundone happly hhistory _ =>
    obtain ⟨s, s', -, happlies, -⟩ := Change.apply_eq_ok happly
    have hch := hs ch (by simp [History.mem_entries, hundone])
    intro a ha
    rw [hhistory, History.mem_entries, List.mem_cons] at ha
    rcases ha with (rfl | ha) | ha
    · exact hch.of_applies happlies
    · exact hs a (History.mem_entries.mpr (.inl ha))
    · exact hs a (by simp [History.mem_entries, hundone, ha])
  | loaded _ hhistory =>
    rw [hhistory]
    exact hs
  | added _ hhistory =>
    intro a ha
    rw [hhistory] at ha
    rcases History.mem_entries_push ha with rfl | ha
    · exact trivial
    · exact hs a (History.mem_entries.mpr (.inl ha))
  | replaced _ _ hhistory =>
    rw [hhistory]
    exact hs

theorem Performed.chained {A : Aspect α T β} {k : Key} (hq : Performed e q r)
    (hc : Custody e.canvas e.history) (hs : ∀ ch ∈ e.history.entries, ch.Settled)
    (hk : A.Chained e.canvas e.history k) : A.Chained q.editor.canvas q.editor.history k := by
  cases hq with
  | kept hkeeps =>
    rw [hkeeps.canvas, hkeeps.history]
    exact hk
  | made _ hask happly hhistory _ =>
    rw [hhistory]
    exact hk.push hc (asked_new hask) happly
  | @undone ch ch' rest hdone hrevert hhistory _ =>
    have hmem : ch ∈ e.history.entries := by simp [History.mem_entries, hdone]
    rw [hhistory]
    exact hk.undo hc (hs ch hmem) hdone hrevert rfl rfl
  | @redone ch ch' rest hundone happly hhistory _ =>
    have hmem : ch ∈ e.history.entries := by simp [History.mem_entries, hundone]
    rw [hhistory]
    exact hk.redo hc (hs ch hmem) hundone happly rfl rfl
  | loaded hcanvas hhistory =>
    rw [hcanvas, hhistory]
    exact hk.extend hc _
  | added hcanvas hhistory =>
    rw [hcanvas, hhistory]
    exact (hk.extend hc _).pushCreation _
  | replaced hslot hcanvas hhistory =>
    rw [hcanvas, hhistory]
    exact hk.putItem hslot _

theorem settled_run (settings : Settings α) (rs : List (Request α T)) :
    ∀ ch ∈ ((ofSettings settings).run rs).history.entries, ch.Settled := by
  refine run_induction (P := fun e => ∀ ch ∈ e.history.entries, ch.Settled)
    (fun e r hs => (performed e r).settled hs) (fun ch hch => ?_) rs
  cases hch

theorem linked_run [Inhabited β] (A : Aspect α T β) (settings : Settings α)
    (rs : List (Request α T)) :
    A.Linked ((ofSettings settings).run rs).canvas ((ofSettings settings).run rs).history := by
  -- the chains rest on who has the objects and on what the records remember
  have hrun := run_induction (P := fun e : Editor α T => Custody e.canvas e.history ∧
      (∀ ch ∈ e.history.entries, ch.Settled) ∧ ∀ k, A.Chained e.canvas e.history k)
    (fun e r ⟨hc, hs, hk⟩ => ⟨(performed e r).custody hc, (performed e r).settled hs,
      fun k => (performed e r).chained hc hs (hk k)⟩)
    ⟨custody_ofSettings settings, settled_run settings [], chained_ofSettings A settings⟩ rs
  exact Aspect.linked_of_chained hrun.2.2

/-- **The records of an object form a chain**, by `placing` as by `painting` (`Aspect.Linked`). -/
theorem records_form_chains (settings : Settings α) (rs : List (Request α T)) :
    let e := (ofSettings settings).run rs
    (∀ t, .transformation t ∈ e.history.entries → t.transform.inverse? = .ok t.inverse ∧
      ∃ before, t.committed = some (before, t.frame.compose before t.transform)) ∧
    Aspect.placing.Linked e.canvas e.history ∧
    Aspect.painting.Linked e.canvas e.history ∧
    (rs.countP Request.places ≤ UInt32.size →
      ∀ ch ∈ e.history.entries, ∃ d, Has e.canvas e.history ch.key d) := by
  intro e
  refine ⟨fun t ht => settled_run settings rs _ ht, linked_run _ settings rs,
    linked_run _ settings rs, fun hplaced ch hch => ?_⟩
  exact (lineage_run settings rs hplaced).exists_has hch

theorem records_form_chains_moved :
    let d : Drawable Float (Shape Float) := ⟨.rect ⟨0, 0, 1, 1⟩, .identity, 0, default⟩
    let rs : List (Request Float (Shape Float)) :=
      [.add d, .setMode .select, .press ⟨0.5, 0.5⟩, .applyEntry (.coefficients ⟨1, 0, 0, 1, 2, 0⟩),
        .press ⟨2.5, 0.5⟩, .applyEntry (.coefficients ⟨1, 0, 0, 1, 4, 0⟩), .undo]
    let e := (ofSettings default).run rs
    rs.countP Request.places ≤ UInt32.size ∧
      ∃ p q d, (Aspect.placing.spans ⟨0⟩ e.history.done).head? = some p ∧
        (Aspect.placing.spans ⟨0⟩ e.history.undone).head? = some q ∧
        Has e.canvas e.history ⟨0⟩ d ∧ p.2 = d.transform ∧ q.1 = d.transform := by
  intro d rs e
  have hplaced : rs.countP Request.places ≤ UInt32.size := by decide
  obtain ⟨-, hlinked, -, hpresent⟩ := records_form_chains default rs
  have hlast : (Aspect.placing.spans ⟨0⟩ e.history.done).head?.isSome = true := by
    decide +kernel
  have hnext : (Aspect.placing.spans ⟨0⟩ e.history.undone).head?.isSome = true := by
    decide +kernel
  have hrecord : ∃ ch ∈ e.history.entries, ch.key = ⟨0⟩ := by
    decide +kernel
  obtain ⟨p, hp⟩ := Option.isSome_iff_exists.mp hlast
  obtain ⟨q, hq⟩ := Option.isSome_iff_exists.mp hnext
  obtain ⟨ch, hch, hkey⟩ := hrecord
  obtain ⟨d', hd'⟩ := hpresent hplaced ch hch
  rw [hkey] at hd'
  obtain ⟨hdone, hundone⟩ := (hlinked ⟨0⟩).2 d' hd'
  exact ⟨hplaced, p, q, d', hp, hq, hd', hdone p hp, hundone q hq⟩

end Editor

end VectorEditor
