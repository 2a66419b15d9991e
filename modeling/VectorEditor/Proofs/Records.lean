import VectorEditor.Json.Record

/-!
# Records read by key

`Schema.readMembers?` goes once through the members of an object. What comes of the slot of a field
depends on the members with the name of that field alone: `Schema.Finds` says how, and
`Schema.readMembers?_eq_some_iff` that it holds of every field at once.
-/

namespace VectorEditor.Json

/-- Members whose names are texts, as they stand in a document. -/
def texts (members : List (String × Json)) : List (JsonString × Json) :=
  members.map fun m => (.text m.1, m.2)

/-- The object with the given members. -/
def ofMembers (members : List (String × Json)) : Json := .object (texts members)

variable {F : Type} {Content : F → Type}

namespace Slots

variable [DecidableEq F] {f g : F}

theorem fill_self (slots : Slots Content) (x : Content f) : slots.fill f x f = some x :=
  dif_pos rfl

theorem fill_ne (h : g ≠ f) (slots : Slots Content) (x : Content f) :
    slots.fill f x g = slots g :=
  dif_neg h.symm

end Slots

namespace Schema

variable {schema : Schema F Content} {slots slots' : Slots Content} {f g : F} {name : String}
  {v : Json} {members : List (String × Json)} {before after : Option (Content f)}

theorem field?_eq_some_iff : schema.field? name = some f ↔ schema.key f = name := by
  constructor
  · intro h
    simpa using List.find?_some h
  · rintro rfl
    cases hfound : schema.field? (schema.key f) with
    | none =>
      have hmissed := List.find?_eq_none.mp hfound f (schema.mem_fields f)
      simp at hmissed
    | some g =>
      have hkey : schema.key g = schema.key f := by simpa using List.find?_some hfound
      rw [schema.key_inj g f hkey]

theorem field?_eq_none_iff : schema.field? name = none ↔ ∀ f, name ≠ schema.key f := by
  rw [Option.eq_none_iff_forall_ne_some]
  refine forall_congr' fun f => ?_
  rw [ne_eq, field?_eq_some_iff, ne_comm, ne_eq]

/-- The way through the members takes the slot of a field from `before` to `after`: at most one
value is found for it, and that one is what comes of the slot. -/
structure Finds (schema : Schema F Content) (members : List (String × Json)) (f : F)
    (before after : Option (Content f)) : Prop where
  once : (members.map Prod.fst).count (schema.key f) + before.isSome.toNat ≤ 1
  named (v : Json) (h : (schema.key f, v) ∈ members) :
    ∃ x, schema.read? f v = some x ∧ after = some x
  unnamed (h : schema.key f ∉ members.map Prod.fst) : after = before

theorem finds_nil : schema.Finds [] f before after ↔ after = before := by
  refine ⟨fun h => h.unnamed List.not_mem_nil, fun h => ⟨?_, fun v hv => ?_, fun _ => h⟩⟩
  · simpa using Bool.toNat_le _
  · exact absurd hv List.not_mem_nil

theorem finds_cons_ne (h : name ≠ schema.key f) :
    schema.Finds ((name, v) :: members) f before after ↔ schema.Finds members f before after := by
  have hcount : (((name, v) :: members).map Prod.fst).count (schema.key f) =
      (members.map Prod.fst).count (schema.key f) := List.count_cons_of_ne h
  have hmem : ∀ w, (schema.key f, w) ∈ (name, v) :: members ↔ (schema.key f, w) ∈ members := by
    intro w
    simp [Ne.symm h]
  constructor
  · rintro ⟨honce, hnamed, hunnamed⟩
    refine ⟨hcount ▸ honce, fun w hw => hnamed w ((hmem w).mpr hw), fun habsent => hunnamed ?_⟩
    simpa [Ne.symm h] using habsent
  · rintro ⟨honce, hnamed, hunnamed⟩
    refine ⟨hcount ▸ honce, fun w hw => hnamed w ((hmem w).mp hw), fun habsent => hunnamed ?_⟩
    simpa [Ne.symm h] using habsent

theorem finds_cons_self :
    schema.Finds ((schema.key f, v) :: members) f before after ↔
      before = none ∧ ∃ x, schema.read? f v = some x ∧ schema.Finds members f (some x) after := by
  have hcount : (((schema.key f, v) :: members).map Prod.fst).count (schema.key f) =
      (members.map Prod.fst).count (schema.key f) + 1 := List.count_cons_self
  constructor
  · rintro ⟨honce, hnamed, -⟩
    rw [hcount] at honce
    obtain ⟨x, hread, rfl⟩ := hnamed v List.mem_cons_self
    refine ⟨?_, x, hread, ?_, fun w hw => hnamed w (List.mem_cons_of_mem _ hw), fun _ => rfl⟩
    · cases before with
      | none => rfl
      | some y => simp at honce
    · simp only [Option.isSome_some, Bool.toNat_true]
      omega
  · rintro ⟨rfl, x, hread, honce, hnamed, hunnamed⟩
    simp only [Option.isSome_some, Bool.toNat_true] at honce
    -- the slot is full now, so the rest has nothing for this field
    have habsent : schema.key f ∉ members.map Prod.fst :=
      List.count_eq_zero.mp (by omega)
    refine ⟨by simpa [hcount] using honce, fun w hw => ?_, fun h => by simp at h⟩
    rcases List.mem_cons.mp hw with heq | hw
    · cases heq
      exact ⟨x, hread, hunnamed habsent⟩
    · exact absurd (List.mem_map_of_mem hw) habsent

theorem count_names (members : List (String × Json)) (name : String) :
    (members.map Prod.fst).count name = (members.filter (·.1 = name)).length := by
  rw [List.count, List.countP_map, List.countP_eq_length_filter]
  rfl

theorem finds_some_iff {x : Content f} :
    schema.Finds members f none (some x) ↔
      ∃ v, members.filter (·.1 = schema.key f) = [(schema.key f, v)] ∧
        schema.read? f v = some x := by
  have hmem : ∀ v, (schema.key f, v) ∈ members ↔
      (schema.key f, v) ∈ members.filter (·.1 = schema.key f) := by
    intro v
    simp
  constructor
  · rintro ⟨honce, hnamed, hunnamed⟩
    have hfound : schema.key f ∈ members.map Prod.fst :=
      Classical.byContradiction fun habsent => by cases hunnamed habsent
    obtain ⟨⟨name, v⟩, hv, rfl : name = schema.key f⟩ := List.mem_map.mp hfound
    obtain ⟨y, hread, hy⟩ := hnamed v hv
    cases hy
    have hone : (members.filter (·.1 = schema.key f)).length = 1 := by
      rw [← count_names]
      have hpos := List.count_pos_iff.mpr hfound
      simp only [Option.isSome_none, Bool.toNat_false] at honce
      omega
    obtain ⟨m, hm⟩ := List.length_eq_one_iff.mp hone
    have hv' := (hmem v).mp hv
    rw [hm, List.mem_singleton] at hv'
    exact ⟨v, hv' ▸ hm, hread⟩
  · rintro ⟨v, hfilter, hread⟩
    have hone : (members.map Prod.fst).count (schema.key f) = 1 := by
      rw [count_names, hfilter, List.length_singleton]
    refine ⟨by simp [hone], fun w hw => ?_, fun habsent => ?_⟩
    · rw [hmem, hfilter, List.mem_singleton] at hw
      cases hw
      exact ⟨x, hread, rfl⟩
    · rw [List.count_eq_zero.mpr habsent] at hone
      cases hone

/-! ## One member after the other -/

variable [DecidableEq F]

theorem forall_finds_cons :
    (∀ g, schema.Finds ((schema.key f, v) :: members) g (slots g) (slots' g)) ↔
      slots f = none ∧ ∃ x, schema.read? f v = some x ∧
        ∀ g, schema.Finds members g (slots.fill f x g) (slots' g) := by
  have hne : ∀ g, g ≠ f → schema.key f ≠ schema.key g := fun g hg heq =>
    hg (schema.key_inj f g heq).symm
  constructor
  · intro h
    obtain ⟨hnone, x, hread, hfinds⟩ := finds_cons_self.mp (h f)
    refine ⟨hnone, x, hread, fun g => ?_⟩
    by_cases hg : g = f
    · subst hg
      rwa [Slots.fill_self]
    · rw [Slots.fill_ne hg]
      exact (finds_cons_ne (hne g hg)).mp (h g)
  · rintro ⟨hnone, x, hread, h⟩ g
    have hg' := h g
    by_cases hg : g = f
    · subst hg
      rw [Slots.fill_self] at hg'
      exact finds_cons_self.mpr ⟨hnone, x, hread, hg'⟩
    · rw [Slots.fill_ne hg] at hg'
      exact (finds_cons_ne (hne g hg)).mpr hg'

theorem readField?_eq_some_iff :
    schema.readField? slots f v = some slots' ↔
      slots f = none ∧ ∃ x, schema.read? f v = some x ∧ slots.fill f x = slots' := by
  rw [readField?]
  cases hslot : slots f with
  | none => simp
  | some y => simp

theorem readMembers?_cons (slots : Slots Content) (m : JsonString × Json)
    (raw : List (JsonString × Json)) :
    schema.readMembers? slots (m :: raw) =
      (schema.readMember? slots m).bind (schema.readMembers? · raw) :=
  List.foldlM_cons

/-- **An object is read by key** (`Finds`). -/
theorem readMembers?_eq_some_iff :
    schema.readMembers? slots (texts members) = some slots' ↔
      ∀ f, schema.Finds members f (slots f) (slots' f) := by
  induction members generalizing slots with
  | nil =>
    simp only [finds_nil]
    refine ⟨fun h f => congrFun (Option.some.inj h).symm f, fun h => ?_⟩
    exact congrArg some (funext fun f => (h f).symm)
  | cons m members ih =>
    obtain ⟨name, v⟩ := m
    rw [texts, List.map_cons, ← texts, readMembers?_cons, readMember?]
    cases hfield : schema.field? name with
    | none =>
      rw [Option.bind_some, ih]
      exact forall_congr' fun f => (finds_cons_ne (field?_eq_none_iff.mp hfield f)).symm
    | some f =>
      obtain rfl := field?_eq_some_iff.mp hfield
      simp only [Option.bind_eq_some_iff, readField?_eq_some_iff, forall_finds_cons]
      constructor
      · rintro ⟨_, ⟨hnone, x, hread, rfl⟩, hrest⟩
        exact ⟨hnone, x, hread, ih.mp hrest⟩
      · rintro ⟨hnone, x, hread, hrest⟩
        exact ⟨_, ⟨hnone, x, hread, rfl⟩, ih.mpr hrest⟩

theorem exists_texts_of_readMembers? {raw : List (JsonString × Json)}
    (h : schema.readMembers? slots raw = some slots') : ∃ members, raw = texts members := by
  induction raw generalizing slots with
  | nil => exact ⟨[], rfl⟩
  | cons m raw ih =>
    obtain ⟨name, v⟩ := m
    rw [readMembers?_cons] at h
    obtain ⟨next, hstep, hrest⟩ := Option.bind_eq_some_iff.mp h
    obtain ⟨members, rfl⟩ := ih hrest
    cases name with
    | text name => exact ⟨(name, v) :: members, rfl⟩
    | broken => cases hstep

end Schema

end VectorEditor.Json
