import VectorEditor.Proofs.Entries
import VectorEditor.Proofs.Requests

/-!
# Custody of the objects

Objects wander between the canvas and the records of the history: whoever takes an object off holds
it, and gives it back. `Custody` says that no object is in two places, and holds after every session
whatsoever. `Lineage` adds that the records of one object are in order (its creation first, its
deletion last) and that no object that some record still speaks of is lost; it holds as long as no
key is given out twice. From the two it follows that undoing and redoing never fail.
-/

namespace VectorEditor

variable {α T : Type}

namespace Change

/-- The part of a change in the life of its object. -/
inductive Role where
  | begins
  | goesOn
  | ends
deriving DecidableEq

def role : Change α T → Role
  | .creation _ _ => .begins
  | .deletion _ _ => .ends
  | _ => .goesOn

/-- The object that is held by a change. -/
def held : Change α T → Option (Drawable α T)
  | .creation _ held => held
  | .deletion _ held => held
  | _ => none

/-- Whether a change holds the object of a key. -/
def holds (k : Key) (ch : Change α T) : Bool := ch.key = k && ch.held.isSome

theorem holds_iff {k : Key} {ch : Change α T} :
    ch.holds k = true ↔ ch.key = k ∧ ch.held.isSome = true := by
  rw [holds, Bool.and_eq_true, decide_eq_true_eq]

/-- A change that is in force holds an object exactly if it is a deletion. -/
def InForce (ch : Change α T) : Prop := ch.held.isSome ↔ ch.role = .ends

/-- A change that is taken back holds an object exactly if it is a creation. -/
def TakenBack (ch : Change α T) : Prop := ch.held.isSome ↔ ch.role = .begins

/-- Whether one change may come before another: with one object, no change is made before its
creation or after its deletion. -/
def Precedes (a b : Key × Role) : Prop := a.1 = b.1 → a.2 ≠ .ends ∧ b.2 ≠ .begins

/-- A change and the canvas pass an object between them, or leave it where it is. -/
structure Passes (ch : Change α T) (c : Canvas α T) (ch' : Change α T) (c' : Canvas α T) :
    Prop where
  key : ch'.key = ch.key
  role : ch'.role = ch.role
  issued : ∀ k, (c'.slot? k).isSome = (c.slot? k).isSome
  copies : ∀ k, (c'.contains k).toNat + (ch'.holds k).toNat =
    (c.contains k).toNat + (ch.holds k).toNat

theorem Passes.refl (ch : Change α T) (c : Canvas α T) : Passes ch c ch c :=
  ⟨rfl, rfl, fun _ => rfl, fun _ => rfl⟩

theorem passes_of_slot {ch ch' : Change α T} {c : Canvas α T} {s s' : Option (Drawable α T)}
    (hslot : c.slot? ch.key = some s) (hkey : ch'.key = ch.key) (hrole : ch'.role = ch.role)
    (hsum : s'.isSome.toNat + ch'.held.isSome.toNat = s.isSome.toNat + ch.held.isSome.toNat) :
    Passes ch c ch' (c.put ch.key s') := by
  refine ⟨hkey, hrole, fun k => ?_, fun k => ?_⟩
  · exact Canvas.isSome_slot?_put c _ k s'
  · by_cases hk : k = ch.key
    · subst hk
      rw [Canvas.contains_eq, Canvas.get?_put_self hslot, Canvas.contains_eq,
        Canvas.get?_of_slot? hslot]
      simpa only [holds, hkey, decide_true, Bool.true_and] using hsum
    · have hne : ¬ch.key = k := fun h => hk h.symm
      simp only [Canvas.contains_eq, Canvas.get?_put_ne hk, holds, hkey, hne, decide_false,
        Bool.false_and]

theorem New.held_eq [Scalar α] {ch : Change α T} {c : Canvas α T} (h : ch.New c) :
    ch.held = none := by
  cases ch with
  | creation k held => exact absurd h id
  | deletion k held => exact h
  | _ => rfl

theorem New.role_ne [Scalar α] {ch : Change α T} {c : Canvas α T} (h : ch.New c) :
    ch.role ≠ .begins := by
  cases ch with
  | creation k held => exact absurd h id
  | _ => simp [role]

section

variable [Scalar α] [Region α T] {ch ch' : Change α T} {c c' : Canvas α T}

theorem passes_of_apply (h : ch.apply c = ⟨ch', c', none⟩) : Passes ch c ch' c' := by
  obtain ⟨s, s', hslot, happlies, rfl⟩ := apply_eq_ok h
  refine passes_of_slot hslot happlies.key_eq ?_ ?_
  · cases happlies <;> rfl
  · cases happlies <;> rfl

theorem passes_of_revert (h : ch.revert c = ⟨ch', c', none⟩) : Passes ch c ch' c' := by
  obtain ⟨s, s', hslot, hreverts, rfl⟩ := revert_eq_ok h
  refine passes_of_slot hslot hreverts.key_eq ?_ ?_
  · cases hreverts <;> rfl
  · cases hreverts <;> rfl

theorem New.contains_of_apply (hnew : ch.New c) (h : ch.apply c = ⟨ch', c', none⟩) :
    c.contains ch.key = true := by
  obtain ⟨s, s', hslot, happlies, -⟩ := apply_eq_ok h
  rw [Canvas.contains_eq, Canvas.get?_of_slot? hslot]
  cases happlies with
  | create => exact absurd hnew id
  | _ => rfl

theorem inForce_of_apply (h : ch.apply c = ⟨ch', c', none⟩) : ch'.InForce := by
  obtain ⟨s, s', -, happlies, -⟩ := apply_eq_ok h
  cases happlies <;> simp [InForce, held, role]

theorem takenBack_of_revert (h : ch.revert c = ⟨ch', c', none⟩) : ch'.TakenBack := by
  obtain ⟨s, s', -, hreverts, -⟩ := revert_eq_ok h
  cases hreverts <;> simp [TakenBack, held, role]

end

end Change

/-- In how many places the object of a key is. -/
def copies (c : Canvas α T) (h : History (Change α T)) (k : Key) : Nat :=
  (c.contains k).toNat + h.entries.countP (·.holds k)

/-- **No object is in two places**: records in force hold what they deleted, those taken back hold
what they created, and what is held is neither on the canvas nor held twice. -/
structure Custody (c : Canvas α T) (h : History (Change α T)) : Prop where
  done : ∀ ch ∈ h.done, ch.InForce
  undone : ∀ ch ∈ h.undone, ch.TakenBack
  issued : ∀ ch ∈ h.entries, (c.slot? ch.key).isSome
  copies_le : ∀ k, copies c h k ≤ 1

/-- **No object is lost** of which some record speaks, and its records are in order. -/
structure Lineage (c : Canvas α T) (h : History (Change α T)) : Prop where
  ordered : (h.entries.map fun ch => (ch.key, ch.role)).Pairwise Change.Precedes
  present : ∀ ch ∈ h.entries, 1 ≤ copies c h ch.key

section steps

variable {c c' : Canvas α T} {h h' : History (Change α T)} {ch ch' : Change α T}
  {pre post : List (Change α T)}

theorem countP_holds_cons (k : Key) (ch : Change α T) (chs : List (Change α T)) :
    (ch :: chs).countP (·.holds k) = chs.countP (·.holds k) + (ch.holds k).toNat := by
  rw [List.countP_cons]
  cases ch.holds k <;> rfl

/-! ### One record is exchanged for what becomes of it -/

theorem copies_replace (hp : Change.Passes ch c ch' c') (he : h.entries = pre ++ ch :: post)
    (he' : h'.entries = pre ++ ch' :: post) (k : Key) : copies c' h' k = copies c h k := by
  have hk := hp.copies k
  simp only [copies, he, he', List.countP_append, countP_holds_cons]
  omega

theorem key_mem_replace (hp : Change.Passes ch c ch' c') (he : h.entries = pre ++ ch :: post)
    (he' : h'.entries = pre ++ ch' :: post) {a : Change α T} (ha : a ∈ h'.entries) :
    ∃ b ∈ h.entries, b.key = a.key := by
  rw [he', List.mem_append, List.mem_cons] at ha
  rw [he]
  rcases ha with ha | rfl | ha
  · exact ⟨a, List.mem_append_left _ ha, rfl⟩
  · exact ⟨ch, by simp, hp.key.symm⟩
  · exact ⟨a, by simp [ha], rfl⟩

theorem Custody.replace (hc : Custody c h) (hp : Change.Passes ch c ch' c')
    (he : h.entries = pre ++ ch :: post) (he' : h'.entries = pre ++ ch' :: post)
    (hdone : ∀ a ∈ h'.done, a.InForce) (hundone : ∀ a ∈ h'.undone, a.TakenBack) :
    Custody c' h' := by
  refine ⟨hdone, hundone, fun a ha => ?_, fun k => ?_⟩
  · obtain ⟨b, hb, hkey⟩ := key_mem_replace hp he he' ha
    rw [hp.issued, ← hkey]
    exact hc.issued b hb
  · rw [copies_replace hp he he']
    exact hc.copies_le k

theorem Lineage.replace (hl : Lineage c h) (hp : Change.Passes ch c ch' c')
    (he : h.entries = pre ++ ch :: post) (he' : h'.entries = pre ++ ch' :: post) :
    Lineage c' h' := by
  refine ⟨?_, fun a ha => ?_⟩
  · have hordered := hl.ordered
    rw [he, List.map_append, List.map_cons] at hordered
    rw [he', List.map_append, List.map_cons, hp.key, hp.role]
    exact hordered
  · obtain ⟨b, hb, hkey⟩ := key_mem_replace hp he he' ha
    rw [copies_replace hp he he', ← hkey]
    exact hl.present b hb

/-! ### A record is added -/

theorem Custody.push (hc : Custody c h) (hp : Change.Passes ch c ch' c') (hheld : ch.held = none)
    (hforce : ch'.InForce) (hissued : (c.slot? ch.key).isSome) : Custody c' (h.push ch') := by
  obtain ⟨kept, hkept, hentries⟩ := h.entries_push ch'
  have hmem : ∀ a ∈ (h.push ch').entries, a ∈ h.done ∨ a = ch' := by
    intro a ha
    rcases hentries with hentries | hentries
    · rw [hentries] at ha
      cases ha
    · rw [hentries, List.mem_append, List.mem_reverse, List.mem_singleton] at ha
      exact ha.imp_left fun ha => hkept.subset ha
  refine ⟨fun a ha => ?_, (fun a ha => by cases ha), fun a ha => ?_, fun k => ?_⟩
  · rcases hmem a (History.mem_entries.mpr (.inl ha)) with ha | rfl
    · exact hc.done a ha
    · exact hforce
  · rw [hp.issued]
    rcases hmem a ha with ha | rfl
    · exact hc.issued a (History.mem_entries.mpr (.inl ha))
    · rw [hp.key]
      exact hissued
  · have hk := hp.copies k
    have hnot : ch.holds k = false := by simp [Change.holds, hheld]
    have hdone : kept.countP (·.holds k) ≤ h.done.countP (·.holds k) :=
      hkept.sublist.countP_le
    have hle := hc.copies_le k
    rw [hnot, Bool.toNat_false, Nat.add_zero] at hk
    rw [copies, History.entries, List.countP_append, List.countP_reverse] at hle
    rcases hentries with hentries | hentries
    · rw [copies, hentries, List.countP_nil]
      omega
    · rw [copies, hentries, List.countP_append, List.countP_reverse, countP_holds_cons,
        List.countP_nil]
      omega

theorem Lineage.precedes (hl : Lineage c h) {xs ys : List (Change α T)}
    (he : h.entries = xs ++ ys) {a b : Change α T} (ha : a ∈ xs) (hb : b ∈ ys)
    (hkey : a.key = b.key) : a.role ≠ .ends ∧ b.role ≠ .begins := by
  have hordered := hl.ordered
  rw [he, List.map_append, List.pairwise_append] at hordered
  exact hordered.2.2 _ (List.mem_map_of_mem ha) _ (List.mem_map_of_mem hb) hkey

theorem Custody.role_of_holds (hc : Custody c h) {a : Change α T} {k : Key}
    (hholds : a.holds k = true) :
    a.key = k ∧ (a ∈ h.done → a.role = .ends) ∧ (a ∈ h.undone → a.role = .begins) := by
  obtain ⟨hkey, hheld⟩ := Change.holds_iff.mp hholds
  exact ⟨hkey, fun ha => (hc.done a ha).mp hheld, fun ha => (hc.undone a ha).mp hheld⟩

/-- Among the records of one object the deletion comes last, so the limit reaches it last. -/
theorem Lineage.holder_kept (hc : Custody c h) (hl : Lineage c h) {kept : List (Change α T)}
    (hkept : kept <+: h.done) {a b : Change α T} (ha : a ∈ kept) (hb : b ∈ h.entries)
    (hholds : b.holds a.key = true) : b ∈ kept := by
  obtain ⟨hkey, hends, hbegins⟩ := hc.role_of_holds hholds
  obtain ⟨dropped, hdropped⟩ := hkept
  rcases History.mem_entries.mp hb with hb | hb
  · have hrole := hends hb
    rw [← hdropped, List.mem_append] at hb
    rcases hb with hb | hb
    · exact hb
    · have he : h.entries = dropped.reverse ++ (kept.reverse ++ h.undone) := by
        rw [History.entries, ← hdropped, List.reverse_append, List.append_assoc]
      have hfirst := hl.precedes he (List.mem_reverse.mpr hb)
        (List.mem_append_left _ (List.mem_reverse.mpr ha)) hkey
      exact absurd hrole hfirst.1
  · have hdone : a ∈ h.done.reverse := by
      rw [List.mem_reverse, ← hdropped]
      exact List.mem_append_left _ ha
    exact absurd (hbegins hb) (hl.precedes rfl hdone hb hkey.symm).2

theorem Lineage.present_kept (hc : Custody c h) (hl : Lineage c h) {kept : List (Change α T)}
    (hkept : kept <+: h.done) {a : Change α T} (ha : a ∈ kept) :
    1 ≤ (c.contains a.key).toNat + kept.countP (·.holds a.key) := by
  have hpresent := hl.present a (History.mem_entries.mpr (.inl (hkept.subset ha)))
  rw [copies] at hpresent
  by_cases hcount : h.entries.countP (·.holds a.key) = 0
  · omega
  · obtain ⟨b, hb, hholds⟩ := List.countP_pos_iff.mp (Nat.pos_of_ne_zero hcount)
    have hpos : 0 < kept.countP (·.holds a.key) :=
      List.countP_pos_iff.mpr ⟨b, hl.holder_kept hc hkept ha hb hholds, hholds⟩
    omega

theorem Lineage.push (hc : Custody c h) (hl : Lineage c h) (hp : Change.Passes ch c ch' c')
    (hlive : c.contains ch.key = true)
    (hprecedes : ∀ a ∈ h.done, a.key = ch'.key → a.role ≠ .ends ∧ ch'.role ≠ .begins) :
    Lineage c' (h.push ch') := by
  obtain ⟨kept, hkept, hentries⟩ := h.entries_push ch'
  rcases hentries with hentries | hentries
  · refine ⟨?_, fun a ha => ?_⟩
    · rw [hentries]
      exact .nil
    · rw [hentries] at ha
      cases ha
  refine ⟨?_, fun a ha => ?_⟩
  · have hsub : kept.reverse.Sublist h.entries :=
      hkept.sublist.reverse.trans (List.sublist_append_left ..)
    rw [hentries, List.map_append, List.pairwise_append]
    refine ⟨hl.ordered.sublist (hsub.map _), List.pairwise_singleton _ _, fun x hx y hy => ?_⟩
    obtain ⟨a, ha, rfl⟩ := List.mem_map.mp hx
    obtain rfl := List.mem_singleton.mp hy
    exact hprecedes a (hkept.subset (List.mem_reverse.mp ha))
  · have hk := hp.copies a.key
    rw [copies, hentries, List.countP_append, List.countP_reverse, countP_holds_cons,
      List.countP_nil]
    by_cases hkey : a.key = ch.key
    · rw [← hkey] at hlive
      rw [hlive, Bool.toNat_true] at hk
      omega
    · -- the new record and the canvas have nothing to do with this object
      have hnot : ch'.holds a.key = false := by
        simp [Change.holds, hp.key, Ne.symm hkey]
      have hnot' : ch.holds a.key = false := by
        simp [Change.holds, Ne.symm hkey]
      rw [hnot, hnot', Bool.toNat_false, Nat.add_zero, Nat.add_zero] at hk
      have ha : a ∈ kept := by
        rw [hentries, List.mem_append, List.mem_reverse, List.mem_singleton] at ha
        rcases ha with ha | rfl
        · exact ha
        · exact absurd hp.key hkey
      have hpresent := hl.present_kept hc hkept ha
      omega

/-! ### The canvas changes without a record -/

theorem Custody.extend (hc : Custody c h) (d : Drawable α T) :
    Custody (c.extend (some d)) h := by
  refine ⟨hc.done, hc.undone, fun a ha => ?_, fun k => ?_⟩
  · have hissued := hc.issued a ha
    rw [Canvas.isSome_slot?_iff] at hissued ⊢
    rw [Canvas.size_extend]
    omega
  · by_cases hk : k.slot = c.slots.size
    · have hnone : h.entries.countP (·.holds k) = 0 := by
        rw [List.countP_eq_zero]
        intro a ha hholds
        have hissued := hc.issued a ha
        rw [(hc.role_of_holds hholds).1, Canvas.isSome_slot?_iff] at hissued
        omega
      rw [copies, hnone, Nat.add_zero]
      exact Bool.toNat_le _
    · rw [copies, Canvas.contains_eq, Canvas.get?_eq_join, Canvas.slot?_extend_ne hk]
      exact hc.copies_le k

theorem Lineage.extend (hc : Custody c h) (hl : Lineage c h) (d : Drawable α T) :
    Lineage (c.extend (some d)) h := by
  refine ⟨hl.ordered, fun a ha => ?_⟩
  obtain ⟨s, hs⟩ := Option.isSome_iff_exists.mp (hc.issued a ha)
  have hpresent := hl.present a ha
  rw [copies, Canvas.contains_eq, Canvas.get?_of_slot? hs] at hpresent
  rw [copies, Canvas.contains_eq, Canvas.get?_of_slot? (Canvas.slot?_extend_of_some hs _)]
  exact hpresent

theorem Custody.congr (hc : Custody c h) (hissued : ∀ k, (c'.slot? k).isSome = (c.slot? k).isSome)
    (hcontains : ∀ k, c'.contains k = c.contains k) : Custody c' h := by
  refine ⟨hc.done, hc.undone, fun a ha => ?_, fun k => ?_⟩
  · rw [hissued]
    exact hc.issued a ha
  · rw [copies, hcontains]
    exact hc.copies_le k

theorem Lineage.congr (hl : Lineage c h) (hcontains : ∀ k, c'.contains k = c.contains k) :
    Lineage c' h := by
  refine ⟨hl.ordered, fun a ha => ?_⟩
  rw [copies, hcontains]
  exact hl.present a ha

/-! ### At the boundary between done and undone -/

theorem Custody.vacant_of_held (hc : Custody c h) (hmem : ch ∈ h.entries)
    (hheld : ch.held.isSome = true) : c.slot? ch.key = some none := by
  have hpos : 0 < h.entries.countP (·.holds ch.key) :=
    List.countP_pos_iff.mpr ⟨ch, hmem, Change.holds_iff.mpr ⟨rfl, hheld⟩⟩
  have hle := hc.copies_le ch.key
  obtain ⟨s, hs⟩ := Option.isSome_iff_exists.mp (hc.issued ch hmem)
  rw [copies, Canvas.contains_eq, Canvas.get?_of_slot? hs] at hle
  cases s with
  | none => exact hs
  | some d =>
    rw [Option.isSome_some, Bool.toNat_true] at hle
    omega

/-- A deletion before the boundary or a creation after it would be out of order in the `Lineage`. -/
theorem Lineage.live_of_boundary (hc : Custody c h) (hl : Lineage c h)
    (he : h.entries = pre ++ ch :: post) (hpre : ∀ a ∈ pre, a ∈ h.done)
    (hpost : ∀ a ∈ post, a ∈ h.undone) (hheld : ch.held = none) :
    ∃ d, c.slot? ch.key = some (some d) := by
  have hmem : ch ∈ h.entries := by simp [he]
  have hnone : h.entries.countP (·.holds ch.key) = 0 := by
    rw [List.countP_eq_zero]
    intro b hb hholds
    obtain ⟨hkey, hends, hbegins⟩ := hc.role_of_holds hholds
    rw [he, List.mem_append, List.mem_cons] at hb
    rcases hb with hb | rfl | hb
    · exact (hl.precedes he hb List.mem_cons_self hkey).1 (hends (hpre b hb))
    · simp [Change.holds, hheld] at hholds
    · have he' : h.entries = (pre ++ [ch]) ++ post := by
        rw [he, List.append_assoc, List.singleton_append]
      exact (hl.precedes he' (by simp) hb hkey.symm).2 (hbegins (hpost b hb))
  have hpresent := hl.present ch hmem
  obtain ⟨s, hs⟩ := Option.isSome_iff_exists.mp (hc.issued ch hmem)
  rw [copies, hnone, Nat.add_zero, Canvas.contains_eq, Canvas.get?_of_slot? hs] at hpresent
  cases s with
  | none =>
    rw [Option.isSome_none, Bool.toNat_false] at hpresent
    omega
  | some d => exact ⟨d, hs⟩

end steps

section

variable [Scalar α] {c : Canvas α T} {h : History (Change α T)} {ch : Change α T}
  {rest : List (Change α T)}

theorem Lineage.exists_reverts (hc : Custody c h) (hl : Lineage c h)
    (hdone : h.done = ch :: rest) :
    ∃ s ch' s', c.slot? ch.key = some s ∧ Change.Reverts ch s ch' s' := by
  have he := History.entries_of_done hdone
  have hmem : ch ∈ h.done := by simp [hdone]
  have hforce := hc.done ch hmem
  have hlive := hl.live_of_boundary hc he
    (fun a ha => hdone ▸ List.mem_cons_of_mem _ (List.mem_reverse.mp ha)) (fun a ha => ha)
  cases ch with
  | transformation t =>
    obtain ⟨d, hslot⟩ := hlive rfl
    cases hcommitted : t.committed with
    | none => exact ⟨_, _, _, hslot, .invert hcommitted⟩
    | some pair => exact ⟨_, _, _, hslot, .transform hcommitted⟩
  | creation k held =>
    have hheld : held = none := by simpa [Change.InForce, Change.held, Change.role] using hforce
    subst hheld
    obtain ⟨d, hslot⟩ := hlive rfl
    exact ⟨_, _, _, hslot, .create⟩
  | deletion k held =>
    have hheld : held.isSome = true := hforce.mpr rfl
    have hslot := hc.vacant_of_held (History.mem_entries.mpr (.inl hmem)) hheld
    obtain ⟨d, rfl⟩ := Option.isSome_iff_exists.mp hheld
    exact ⟨_, _, _, hslot, .delete⟩
  | reorder k old new =>
    obtain ⟨d, hslot⟩ := hlive rfl
    exact ⟨_, _, _, hslot, .reorder⟩
  | edit k item =>
    obtain ⟨d, hslot⟩ := hlive rfl
    exact ⟨_, _, _, hslot, .edit⟩

theorem Lineage.exists_applies (hc : Custody c h) (hl : Lineage c h)
    (hundone : h.undone = ch :: rest) :
    ∃ s ch' s', c.slot? ch.key = some s ∧ Change.Applies ch s ch' s' := by
  have he := History.entries_of_undone hundone
  have hmem : ch ∈ h.undone := by simp [hundone]
  have hback := hc.undone ch hmem
  have hlive := hl.live_of_boundary hc he (fun a ha => List.mem_reverse.mp ha)
    (fun a ha => hundone ▸ List.mem_cons_of_mem _ ha)
  cases ch with
  | transformation t =>
    obtain ⟨d, hslot⟩ := hlive rfl
    cases hcommitted : t.committed with
    | none => exact ⟨_, _, _, hslot, .transform hcommitted⟩
    | some pair => exact ⟨_, _, _, hslot, .transformAgain hcommitted⟩
  | creation k held =>
    have hheld : held.isSome = true := hback.mpr rfl
    have hslot := hc.vacant_of_held (History.mem_entries.mpr (.inr hmem)) hheld
    obtain ⟨d, rfl⟩ := Option.isSome_iff_exists.mp hheld
    exact ⟨_, _, _, hslot, .create⟩
  | deletion k held =>
    have hheld : held = none := by simpa [Change.TakenBack, Change.held, Change.role] using hback
    subst hheld
    obtain ⟨d, hslot⟩ := hlive rfl
    exact ⟨_, _, _, hslot, .delete⟩
  | reorder k old new =>
    obtain ⟨d, hslot⟩ := hlive rfl
    exact ⟨_, _, _, hslot, .reorder⟩
  | edit k item =>
    obtain ⟨d, hslot⟩ := hlive rfl
    exact ⟨_, _, _, hslot, .edit⟩

variable [Region α T]

theorem Lineage.undo_answer (hc : Custody c h) (hl : Lineage c h) :
    (h.undo c).answer = .ok (!h.done.isEmpty) := by
  cases hdone : h.done with
  | nil => simp only [History.undo, hdone, List.isEmpty_nil, Bool.not_true]
  | cons ch rest =>
    obtain ⟨s, ch', s', hslot, hreverts⟩ := hl.exists_reverts hc hdone
    have hrevert := Change.revert_of_reverts hslot hreverts
    simp only [History.undo, hdone, Command.revert, hrevert, List.isEmpty_cons, Bool.not_false]

theorem Lineage.redo_answer (hc : Custody c h) (hl : Lineage c h) :
    (h.redo c).answer = .ok (!h.undone.isEmpty) := by
  cases hundone : h.undone with
  | nil => simp only [History.redo, hundone, List.isEmpty_nil, Bool.not_true]
  | cons ch rest =>
    obtain ⟨s, ch', s', hslot, happlies⟩ := hl.exists_applies hc hundone
    have happly := Change.apply_of_applies hslot happlies
    simp only [History.redo, hundone, Command.apply, happly, List.isEmpty_cons, Bool.not_false]

end

/-! ## The editor -/

namespace Editor

variable [Scalar α] [Region α T] {e : Editor α T} {r : Request α T} {q : Reply α T (Answer α)}

omit [Region α T] in
theorem custody_ofSettings (settings : Settings α) :
    Custody (ofSettings settings : Editor α T).canvas
      (ofSettings settings : Editor α T).history := by
  refine ⟨nofun, nofun, nofun, fun k => ?_⟩
  simp [copies, ofSettings, History.empty, History.entries, Canvas.contains, Canvas.get?,
    Canvas.empty]

omit [Region α T] in
theorem lineage_ofSettings (settings : Settings α) :
    Lineage (ofSettings settings : Editor α T).canvas (ofSettings settings : Editor α T).history :=
  ⟨.nil, nofun⟩

theorem Performed.custody (hq : Performed e q r) (hc : Custody e.canvas e.history) :
    Custody q.editor.canvas q.editor.history := by
  cases hq with
  | kept hkeeps =>
    rw [hkeeps.canvas, hkeeps.history]
    exact hc
  | made _ hask happly hhistory _ =>
    obtain ⟨s, s', hslot, -, -⟩ := Change.apply_eq_ok happly
    rw [hhistory]
    refine hc.push (Change.passes_of_apply happly) ?_ (Change.inForce_of_apply happly) ?_
    · exact (asked_new hask).held_eq
    · rw [hslot, Option.isSome_some]
  | undone hdone hrevert hhistory _ =>
    rw [hhistory]
    refine hc.replace (Change.passes_of_revert hrevert) (History.entries_of_done hdone) rfl ?_ ?_
    · intro a ha
      exact hc.done a (hdone ▸ List.mem_cons_of_mem _ ha)
    · intro a ha
      rcases List.mem_cons.mp ha with rfl | ha
      · exact Change.takenBack_of_revert hrevert
      · exact hc.undone a ha
  | redone hundone happly hhistory _ =>
    rw [hhistory]
    refine hc.replace (Change.passes_of_apply happly) (History.entries_of_undone hundone)
      (History.entries_of_done rfl) ?_ ?_
    · intro a ha
      rcases List.mem_cons.mp ha with rfl | ha
      · exact Change.inForce_of_apply happly
      · exact hc.done a ha
    · intro a ha
      exact hc.undone a (hundone ▸ List.mem_cons_of_mem _ ha)
  | loaded hcanvas hhistory =>
    rw [hcanvas, hhistory]
    exact hc.extend _
  | added hcanvas hhistory =>
    rw [hcanvas, hhistory]
    refine (hc.extend _).push (Change.Passes.refl _ _) rfl ?_ ?_
    · simp [Change.InForce, Change.held, Change.role]
    · rw [Canvas.isSome_slot?_iff, Canvas.size_extend]
      exact Nat.lt_succ_of_le (Key.slot_ofSlot_le _)
  | replaced hslot hcanvas hhistory =>
    rw [hcanvas, hhistory]
    exact hc.congr (fun l => Canvas.isSome_slot?_put _ _ l _) (Canvas.contains_put_some hslot _)

theorem Performed.lineage (hq : Performed e q r) (hc : Custody e.canvas e.history)
    (hl : Lineage e.canvas e.history)
    (hroom : r.places = true → e.canvas.slots.size < UInt32.size) :
    Lineage q.editor.canvas q.editor.history := by
  cases hq with
  | kept hkeeps =>
    rw [hkeeps.canvas, hkeeps.history]
    exact hl
  | @made _ ch ch' _ hask happly hhistory _ =>
    have hp := Change.passes_of_apply happly
    have hlive := (asked_new hask).contains_of_apply happly
    rw [hhistory]
    refine hl.push hc hp hlive fun a ha hkey => ⟨fun hends => ?_, ?_⟩
    · -- a deletion in force would hold the object that is on the canvas
      have hholds : a.holds ch.key = true :=
        Change.holds_iff.mpr ⟨hkey.trans hp.key, (hc.done a ha).mpr hends⟩
      have hpos : 0 < e.history.entries.countP (·.holds ch.key) :=
        List.countP_pos_iff.mpr ⟨a, History.mem_entries.mpr (.inl ha), hholds⟩
      have hle := hc.copies_le ch.key
      rw [copies, hlive, Bool.toNat_true] at hle
      omega
    · rw [hp.role]
      exact (asked_new hask).role_ne
  | undone hdone hrevert hhistory _ =>
    rw [hhistory]
    exact hl.replace (Change.passes_of_revert hrevert) (History.entries_of_done hdone) rfl
  | redone hundone happly hhistory _ =>
    rw [hhistory]
    exact hl.replace (Change.passes_of_apply happly) (History.entries_of_undone hundone)
      (History.entries_of_done rfl)
  | loaded hcanvas hhistory =>
    rw [hcanvas, hhistory]
    exact hl.extend hc _
  | @added d hcanvas hhistory =>
    have hroom := hroom rfl
    rw [hcanvas, hhistory]
    refine (hl.extend hc d).push (hc.extend d) (Change.Passes.refl _ _) ?_ fun a ha hkey => ?_
    · rw [Change.key, Canvas.contains_eq,
        Canvas.get?_of_slot? (Canvas.slot?_extend_nextKey hroom _), Option.isSome_some]
    · -- no record speaks of a key that was not given out
      have hissued := hc.issued a (History.mem_entries.mpr (.inl ha))
      rw [hkey, Change.key, Canvas.slot?_nextKey hroom] at hissued
      cases hissued
  | replaced hslot hcanvas hhistory =>
    rw [hcanvas, hhistory]
    exact hl.congr (Canvas.contains_put_some hslot _)

theorem custody_run (settings : Settings α) (rs : List (Request α T)) :
    Custody ((ofSettings settings).run rs).canvas ((ofSettings settings).run rs).history :=
  run_induction (P := fun e => Custody e.canvas e.history)
    (fun e r hc => (performed e r).custody hc) (custody_ofSettings settings) rs

theorem lineage_run (settings : Settings α) (rs : List (Request α T))
    (hplaced : rs.countP Request.places ≤ UInt32.size) :
    Lineage ((ofSettings settings).run rs).canvas ((ofSettings settings).run rs).history := by
  refine (run_induction_within (P := fun e : Editor α T =>
    Custody e.canvas e.history ∧ Lineage e.canvas e.history) (fun e r hinv hroom => ?_)
    ⟨custody_ofSettings settings, lineage_ofSettings settings⟩ rs ?_).2
  · exact ⟨(performed e r).custody hinv.1, (performed e r).lineage hinv.1 hinv.2 hroom⟩
  · simpa [ofSettings, Canvas.empty] using hplaced

/-- **Undoing and redoing never fail**, by `Custody` and `Lineage`. -/
theorem undo_redo_never_fail (settings : Settings α) (rs : List (Request α T))
    (hplaced : rs.countP Request.places < UInt32.size) :
    ((ofSettings settings).run rs).undo.answer =
        .ok (!((ofSettings settings).run rs).history.done.isEmpty) ∧
      ((ofSettings settings).run rs).redo.answer =
        .ok (!((ofSettings settings).run rs).history.undone.isEmpty) := by
  have hc := custody_run settings rs
  have hl := lineage_run settings rs (Nat.le_of_lt hplaced)
  rw [(undo_eq _).1, (redo_eq _).1, hl.undo_answer hc, hl.redo_answer hc]
  exact ⟨rfl, rfl⟩

theorem undo_redo_never_fail_after_edits :
    let d : Drawable Float (Shape Float) := ⟨.rect ⟨0, 0, 1, 1⟩, .identity, 0, default⟩
    let rs : List (Request Float (Shape Float)) :=
      [.add d, .raise ⟨0⟩, .replaceItem ⟨0⟩ (.circle ⟨⟨0, 0⟩, 1⟩), .delete ⟨0⟩, .undo, .load d]
    let e := (ofSettings default).run rs
    rs.countP Request.places < UInt32.size ∧ e.undo.answer = .ok (!e.history.done.isEmpty) ∧
      e.redo.answer = .ok (!e.history.undone.isEmpty) :=
  ⟨by decide, undo_redo_never_fail default _ (by decide)⟩

/-- **Objects are neither lost nor duplicated**, as long as there are keys left. -/
theorem objects_in_one_place (settings : Settings α) (rs : List (Request α T)) :
    let e := (ofSettings settings).run rs
    (∀ k held, .creation k held ∈ e.history.done → held = none) ∧
    (∀ k held, .creation k held ∈ e.history.undone → held.isSome = true) ∧
    (∀ k held, .deletion k held ∈ e.history.done → held.isSome = true) ∧
    (∀ k held, .deletion k held ∈ e.history.undone → held = none) ∧
    (∀ ch ∈ e.history.entries, ch.held.isSome = true →
      e.canvas.isVacant ch.key = true ∧ e.history.entries.countP (·.holds ch.key) = 1) ∧
    (rs.countP Request.places ≤ UInt32.size → ∀ ch ∈ e.history.entries,
      (e.canvas.contains ch.key = true ∧ e.history.entries.countP (·.holds ch.key) = 0) ∨
        (e.canvas.contains ch.key = false ∧
          e.history.entries.countP (·.holds ch.key) = 1)) := by
  intro e
  have hc : Custody e.canvas e.history := custody_run settings rs
  refine ⟨fun k held hmem => ?_, fun k held hmem => ?_, fun k held hmem => ?_,
    fun k held hmem => ?_, fun ch hmem hheld => ?_, fun hplaced ch hmem => ?_⟩
  · simpa [Change.InForce, Change.held, Change.role] using hc.done _ hmem
  · exact (hc.undone _ hmem).mpr rfl
  · exact (hc.done _ hmem).mpr rfl
  · simpa [Change.TakenBack, Change.held, Change.role] using hc.undone _ hmem
  · have hpos : 0 < e.history.entries.countP (·.holds ch.key) :=
      List.countP_pos_iff.mpr ⟨ch, hmem, Change.holds_iff.mpr ⟨rfl, hheld⟩⟩
    have hle := hc.copies_le ch.key
    rw [copies] at hle
    exact ⟨Canvas.isVacant_iff.mpr (hc.vacant_of_held hmem hheld), by omega⟩
  · have hle := hc.copies_le ch.key
    have hl : Lineage e.canvas e.history := lineage_run settings rs hplaced
    have hge := hl.present ch hmem
    rw [copies] at hle hge
    cases hcontains : e.canvas.contains ch.key with
    | true =>
      rw [hcontains, Bool.toNat_true] at hle
      exact .inl ⟨rfl, by omega⟩
    | false =>
      rw [hcontains, Bool.toNat_false] at hle hge
      exact .inr ⟨rfl, by omega⟩

theorem objects_in_one_place_deleted :
    let d : Drawable Float (Shape Float) := ⟨.rect ⟨0, 0, 1, 1⟩, .identity, 0, default⟩
    let rs : List (Request Float (Shape Float)) := [.add d, .delete ⟨0⟩]
    let e := (ofSettings default).run rs
    rs.countP Request.places ≤ UInt32.size ∧ e.history.entries.length = 2 ∧
      ∀ ch ∈ e.history.entries,
        (e.canvas.contains ch.key = true ∧ e.history.entries.countP (·.holds ch.key) = 0) ∨
          (e.canvas.contains ch.key = false ∧
            e.history.entries.countP (·.holds ch.key) = 1) :=
  ⟨by decide, by rfl, (objects_in_one_place default _).2.2.2.2.2 (by decide)⟩

/-! ## When keys run out -/

theorem delete_of_live {e : Editor α T} {k : Key} {d : Drawable α T}
    (hd : e.canvas.get? k = some d) :
    (e.delete k).editor.canvas = e.canvas.put k none ∧
      (e.delete k).editor.history = e.history.push (.deletion k (some d)) := by
  have hkeeps := deselectKey_keeps e k
  have hslot : (e.deselectKey k).editor.canvas.slot? k = some (some d) := by
    rw [hkeeps.canvas]
    exact Canvas.get?_eq_some_iff.mp hd
  have hcommit : (e.deselectKey k).editor.commit (.deletion k none) true = _ :=
    commit_of_applies hslot .delete true
  rw [← hkeeps.canvas, ← hkeeps.history]
  exact ⟨congrArg (·.editor.canvas) hcommit, congrArg (·.editor.history) hcommit⟩

theorem run_delete_add_of_full {e : Editor α T} (hfull : e.canvas.slots.size = UInt32.size)
    (hlimit : e.history.limit = some 1) {d : Drawable α T} (hd : e.canvas.get? ⟨0⟩ = some d)
    (d' : Drawable α T) :
    (e.run [.delete ⟨0⟩, .add d']).history.entries = [.creation ⟨0⟩ none] ∧
      (e.run [.delete ⟨0⟩, .add d']).canvas.contains ⟨0⟩ = false := by
  obtain ⟨hcanvas, hhistory⟩ := delete_of_live hd
  have hsize : (e.delete ⟨0⟩).editor.canvas.slots.size = UInt32.size := by
    rw [hcanvas, Canvas.size_put, hfull]
  constructor
  · show ((e.delete ⟨0⟩).editor.history.push
      (.creation (e.delete ⟨0⟩).editor.canvas.nextKey none)).entries = _
    rw [Canvas.nextKey_of_full hsize, hhistory]
    simp [History.entries, History.push, History.keep, hlimit]
  · have hne : (⟨0⟩ : Key).slot ≠ (e.delete ⟨0⟩).editor.canvas.slots.size := by
      rw [hsize]
      decide
    show ((e.delete ⟨0⟩).editor.add d').editor.canvas.contains ⟨0⟩ = false
    rw [canvas_add, Canvas.contains_eq, Canvas.get?_eq_join, Canvas.slot?_extend_ne hne, hcanvas,
      Canvas.slot?_put_self (Canvas.get?_eq_some_iff.mp hd)]
    rfl

/-- The key of the first object is given out again after its deletion has been forgotten. -/
theorem lost_of_full {n : Nat} (hfull : n = UInt32.size) {settings : Settings α}
    (hlimit : settings.historyLimit = some 1) (d : Drawable α T) :
    let e : Editor α T :=
      (ofSettings settings).run (List.replicate n (.load d) ++ [.delete ⟨0⟩, .add d])
    e.history.entries = [.creation ⟨0⟩ none] ∧ e.canvas.contains ⟨0⟩ = false ∧
      ¬∀ ch ∈ e.history.entries,
        (e.canvas.contains ch.key = true ∧ e.history.entries.countP (·.holds ch.key) = 0) ∨
          (e.canvas.contains ch.key = false ∧
            e.history.entries.countP (·.holds ch.key) = 1) := by
  intro e
  obtain ⟨hentries, hcontains⟩ :
      e.history.entries = [.creation ⟨0⟩ none] ∧ e.canvas.contains ⟨0⟩ = false := by
    simp only [e]
    rw [run_append, run_replicate_load]
    refine run_delete_add_of_full ?_ hlimit (d := d) ?_ d
    · exact (Canvas.size_extendBy_empty n d).trans hfull
    · exact Canvas.get?_extendBy_empty (hfull ▸ (⟨0⟩ : Key).index.toNat_lt) d
  refine ⟨hentries, hcontains, fun hplaces => ?_⟩
  rw [hentries] at hplaces
  rcases hplaces _ List.mem_cons_self with ⟨hlive, -⟩ | ⟨-, hheld⟩
  · rw [Change.key, hcontains] at hlive
    cases hlive
  · cases hheld

/-- With a history of one record, its object is lost after 2³² placements. -/
theorem object_lost_when_keys_run_out :
    let d : Drawable Float (Shape Float) := ⟨.rect ⟨0, 0, 1, 1⟩, .identity, 0, default⟩
    let settings : Settings Float := { (default : Settings Float) with historyLimit := some 1 }
    let rs : List (Request Float (Shape Float)) :=
      List.replicate UInt32.size (.load d) ++ [.delete ⟨0⟩, .add d]
    let e := (ofSettings settings).run rs
    e.history.entries = [.creation ⟨0⟩ none] ∧ e.canvas.contains ⟨0⟩ = false ∧
      ¬∀ ch ∈ e.history.entries,
        (e.canvas.contains ch.key = true ∧ e.history.entries.countP (·.holds ch.key) = 0) ∨
          (e.canvas.contains ch.key = false ∧
            e.history.entries.countP (·.holds ch.key) = 1) :=
  lost_of_full rfl rfl _

end Editor

end VectorEditor
