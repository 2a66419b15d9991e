import VectorEditor.Canvas.Request
import VectorEditor.Proofs.Slots

/-!
# Keys of the canvas

To its users the canvas is a map from keys to objects in which a key, once given out, stands for one
object for ever: it is live while the object is there and vacant while it is not. `Performed` says
what each request does, slot by slot, and `Follows` what that means for the map; neither speaks of
the whole canvas. Over a session the keys are given out in order (`map_slot_issued`), the objects
are listed by key (`mem_objects_iff`, `pairwise_objects`), and their number is what a counter of
arrivals and departures shows (`size_run`).
-/

namespace VectorEditor.Canvas

variable {α T : Type}

/-- What has become of a key. -/
inductive Status where
  /-- The key has not been given out. -/
  | unissued
  /-- The object of the key has been removed. -/
  | vacant
  /-- The object of the key is on the canvas. -/
  | live
deriving Repr, DecidableEq

/-- What has become of a key of the canvas. -/
def status (c : Canvas α T) (k : Key) : Status :=
  match c.slot? k with
  | none => .unissued
  | some none => .vacant
  | some (some _) => .live

section status

variable {c : Canvas α T} {k : Key}

theorem status_of_slot? {s : Option (Drawable α T)} (h : c.slot? k = some s) :
    c.status k = if s.isSome then .live else .vacant := by
  cases s <;> simp [status, h]

theorem status_eq_live_iff : c.status k = .live ↔ c.contains k = true := by
  rw [contains_eq, get?_eq_join, status]
  split <;> simp_all

theorem status_eq_vacant_iff : c.status k = .vacant ↔ c.isVacant k = true := by
  rw [isVacant_iff, status]
  split <;> simp_all

theorem status_eq_unissued_iff : c.status k = .unissued ↔ c.slots.size ≤ k.slot := by
  rw [← Nat.not_lt, ← isSome_slot?_iff, status]
  split <;> simp_all

theorem status_ne_live_iff : c.status k ≠ .live ↔ c.get? k = none := by
  rw [ne_eq, status_eq_live_iff, contains_eq, Bool.not_eq_true, Option.isSome_eq_false_iff,
    Option.isNone_iff_eq_none]

end status

/-! ## What requests ask for -/

namespace Request

/-- Whether the request places a new object. -/
def inserts : Request α T → Bool
  | .insert _ => true
  | _ => false

/-- Whether the request needs an object under its key. -/
def needsObject : Request α T → Bool
  | .insert _ | .restore _ _ => false
  | _ => true

/-- Whether the request sets a part of an object. -/
def sets : Request α T → Bool
  | .insert _ | .restore _ _ | .remove _ => false
  | _ => true

/-- The key that the request is about, if `next` is given out next. -/
def target (next : Key) : Request α T → Key
  | .insert _ => next
  | .remove k | .restore k _ | .setItem k _ | .setOrder k _ | .setFlags k _
  | .applyTransform k _ _ | .setTransform k _ => k

/-- Why the request is refused for a key of the given status, if it is. -/
def refusal? (k : Key) : Request α T → Status → Option Error
  | .insert _, _ => none
  | .restore _ _, .vacant => none
  | .restore _ _, .live => some (.inUse k)
  | .restore _ _, .unissued => some (.notFound k)
  | _, .live => none
  | _, _ => some (.notFound k)

/-- What the request makes of the status of its key. -/
def turn : Request α T → Status → Status
  | .insert _, .unissued => .live
  | .remove _, .live => .vacant
  | .restore _ _, .vacant => .live
  | _, s => s

/-- What the request makes of the object under its key if it sets a part of it. -/
def revise [Scalar α] : Request α T → Drawable α T → Drawable α T
  | .setItem _ item, d => { d with item }
  | .setOrder _ order, d => { d with order }
  | .setFlags _ flags, d => { d with flags }
  | .applyTransform _ t frame, d => { d with transform := frame.compose d.transform t }
  | .setTransform _ transform, d => { d with transform }
  | _, d => d

/-- The object under the key of the request after it, given the one before. -/
def outcome [Scalar α] : Request α T → Option (Drawable α T) → Option (Drawable α T)
  | .insert d, _ => some d
  | .restore _ d, _ => some d
  | .remove _, _ => none
  | r, object => object.map r.revise

end Request

/-- A counter of the objects after an answer: it goes up when an object is placed or comes back, and
down when one is removed. -/
def tally (n : Nat) : Except Error (Answer α T) → Nat
  | .ok (.key _) => n + 1
  | .ok .restored => n + 1
  | .ok (.object _) => n - 1
  | _ => n

/-- The key that an answer gives out. -/
def given? : Except Error (Answer α T) → Option Key
  | .ok (.key k) => some k
  | _ => none

/-! ## What requests do -/

variable [Scalar α]

/-- What a request leads to: a slot is appended or one slot is written, or it is refused and nothing
happens. -/
inductive Performed (c : Canvas α T) :
    Request α T → Except Error (Answer α T) → Canvas α T → Prop
  | inserted {d : Drawable α T} :
    Performed c (.insert d) (.ok (.key c.nextKey)) (c.extend (some d))
  | removed {k : Key} {d : Drawable α T} (h : c.slot? k = some (some d)) :
    Performed c (.remove k) (.ok (.object d)) (c.put k none)
  | restored {k : Key} {d : Drawable α T} (h : c.slot? k = some none) :
    Performed c (.restore k d) (.ok .restored) (c.put k (some d))
  | revised {r : Request α T} {d : Drawable α T} {a : Answer α T} (hr : r.sets = true)
    (h : c.slot? (r.target c.nextKey) = some (some d)) (ha : ∀ n, tally n (.ok a) = n) :
    Performed c r (.ok a) (c.put (r.target c.nextKey) (some (r.revise d)))
  | absent {r : Request α T} (hr : r.needsObject = true)
    (h : c.get? (r.target c.nextKey) = none) :
    Performed c r (.error (.notFound (r.target c.nextKey))) c
  | unissued {k : Key} {d : Drawable α T} (h : c.slot? k = none) :
    Performed c (.restore k d) (.error (.notFound k)) c
  | inUse {k : Key} {d d' : Drawable α T} (h : c.slot? k = some (some d')) :
    Performed c (.restore k d) (.error (.inUse k)) c

/-! ## The canvas as a map -/

/-- The answer `a` and the canvas `c'` are what becomes of the request `r` in a map from keys to
objects that never gives out a key twice. -/
structure Follows (c : Canvas α T) (r : Request α T) (a : Except Error (Answer α T))
    (c' : Canvas α T) : Prop where
  /-- A request is refused for the status of its key and for nothing else. -/
  refused : ∀ err, a = .error err ↔
    r.refusal? (r.target c.nextKey) (c.status (r.target c.nextKey)) = some err
  /-- A refused request changes nothing. -/
  kept : ∀ err, a = .error err → c' = c
  /-- A new object has a key that was not given out before. -/
  fresh : r.inserts = true → a = .ok (.key c.nextKey) ∧ c.status c.nextKey = .unissued
  /-- No key but that of the request changes its status. -/
  status : ∀ k, c'.status k =
    if k = r.target c.nextKey then r.turn (c.status k) else c.status k
  object : ∀ x, a = .ok x →
    c'.get? (r.target c.nextKey) = r.outcome (c.get? (r.target c.nextKey))
  /-- Every other object is as before. -/
  others : ∀ k, k ≠ r.target c.nextKey → c'.get? k = c.get? k

section status

variable {c : Canvas α T} {k l : Key} {s s' : Option (Drawable α T)}

omit [Scalar α]

theorem status_put (h : c.slot? k = some s) (s' : Option (Drawable α T)) (l : Key) :
    (c.put k s').status l =
      if l = k then (if s'.isSome then .live else .vacant) else c.status l := by
  by_cases hl : l = k
  · subst hl
    rw [if_pos rfl, status_of_slot? (slot?_put_self h s')]
  · rw [if_neg hl, Canvas.status, slot?_put_ne hl, Canvas.status]

theorem status_extend (h : c.slots.size < UInt32.size) (d : Drawable α T) (l : Key) :
    (c.extend (some d)).status l = if l = c.nextKey then .live else c.status l := by
  by_cases hl : l = c.nextKey
  · rw [if_pos hl, hl, status_of_slot? (slot?_extend_nextKey h (some d))]
    rfl
  · rw [if_neg hl, Canvas.status, slot?_extend_of_ne hl, Canvas.status]

theorem status_nextKey (h : c.slots.size < UInt32.size) : c.status c.nextKey = .unissued := by
  rw [Canvas.status, slot?_nextKey h]

end status

namespace Request

variable {r : Request α T}

omit [Scalar α]

theorem needsObject_of_sets (h : r.sets = true) : r.needsObject = true := by
  cases r with
  | insert | restore | remove => cases h
  | _ => rfl

theorem inserts_of_needsObject (h : r.needsObject = true) : r.inserts = false := by
  cases r with
  | insert => cases h
  | _ => rfl

theorem refusal?_of_needsObject (h : r.needsObject = true) (k : Key) (s : Status) :
    r.refusal? k s = if s = .live then none else some (.notFound k) := by
  cases r with
  | insert | restore => cases h
  | _ => cases s <;> rfl

theorem turn_of_needsObject (h : r.needsObject = true) {s : Status} (hs : s ≠ .live) :
    r.turn s = s := by
  cases r with
  | insert | restore => cases h
  | _ => cases s <;> simp_all [turn]

theorem turn_of_sets (h : r.sets = true) (s : Status) : r.turn s = s := by
  cases r with
  | insert | restore | remove => cases h
  | _ => rfl

theorem outcome_of_sets [Scalar α] (h : r.sets = true) (object : Option (Drawable α T)) :
    r.outcome object = object.map r.revise := by
  cases r with
  | insert | restore | remove => cases h
  | _ => rfl

end Request

theorem follows_of_put {c : Canvas α T} {r : Request α T} {a : Answer α T}
    {s s' : Option (Drawable α T)} (hslot : c.slot? (r.target c.nextKey) = some s)
    (hinserts : r.inserts = false)
    (hrefusal : r.refusal? (r.target c.nextKey) (if s.isSome then .live else .vacant) = none)
    (hturn : r.turn (if s.isSome then .live else .vacant) = if s'.isSome then .live else .vacant)
    (houtcome : r.outcome s = s') :
    Follows c r (.ok a) (c.put (r.target c.nextKey) s') where
  refused err := by simp [status_of_slot? hslot, hrefusal]
  kept err herr := by cases herr
  fresh h := by simp [hinserts] at h
  status k := by
    rw [status_put hslot]
    by_cases hk : k = r.target c.nextKey
    · rw [if_pos hk, if_pos hk, hk, status_of_slot? hslot, hturn]
    · rw [if_neg hk, if_neg hk]
  object x _ := by rw [get?_put_self hslot, get?_of_slot? hslot, houtcome]
  others k hk := get?_put_ne hk c s'

theorem follows_of_refused {c : Canvas α T} {r : Request α T} {err : Error}
    (hinserts : r.inserts = false)
    (hrefusal : r.refusal? (r.target c.nextKey) (c.status (r.target c.nextKey)) = some err)
    (hturn : r.turn (c.status (r.target c.nextKey)) = c.status (r.target c.nextKey)) :
    Follows c r (.error err) c where
  refused err' := by simp [hrefusal]
  kept _ _ := rfl
  fresh h := by simp [hinserts] at h
  status k := by
    by_cases hk : k = r.target c.nextKey
    · rw [if_pos hk, hk, hturn]
    · rw [if_neg hk]
  object x hx := by cases hx
  others _ _ := rfl

theorem follows_of_extend {c : Canvas α T} (hroom : c.slots.size < UInt32.size)
    (d : Drawable α T) :
    Follows c (.insert d) (.ok (.key c.nextKey)) (c.extend (some d)) where
  refused err := by simp [Request.refusal?]
  kept err herr := by cases herr
  fresh _ := ⟨rfl, status_nextKey hroom⟩
  status k := by
    rw [status_extend hroom, Request.target]
    by_cases hk : k = c.nextKey
    · rw [if_pos hk, if_pos hk, hk, status_nextKey hroom, Request.turn]
    · rw [if_neg hk, if_neg hk]
  object x _ := by
    rw [Request.target, get?_of_slot? (slot?_extend_nextKey hroom (some d)), Request.outcome]
  others k hk := get?_extend_ne hk (some d)

/-- **Every request treats the canvas as a map** (`Follows`), as long as there are keys left. -/
theorem Performed.follows {c c' : Canvas α T} {r : Request α T} {a : Except Error (Answer α T)}
    (h : Performed c r a c') (hroom : r.inserts = true → c.slots.size < UInt32.size) :
    Follows c r a c' := by
  cases h with
  | inserted => exact follows_of_extend (hroom rfl) _
  | removed hslot => exact follows_of_put hslot rfl rfl rfl rfl
  | restored hslot => exact follows_of_put hslot rfl rfl rfl rfl
  | revised hr hslot _ =>
    have hneeds := Request.needsObject_of_sets hr
    refine follows_of_put hslot (Request.inserts_of_needsObject hneeds) ?_ ?_ ?_
    · rw [Request.refusal?_of_needsObject hneeds]
      rfl
    · rw [Request.turn_of_sets hr]
      rfl
    · rw [Request.outcome_of_sets hr, Option.map_some]
  | absent hr hnone =>
    have hstatus := status_ne_live_iff.mpr hnone
    refine follows_of_refused (Request.inserts_of_needsObject hr) ?_ ?_
    · rw [Request.refusal?_of_needsObject hr, if_neg hstatus]
    · exact Request.turn_of_needsObject hr hstatus
  | unissued hslot =>
    have hstatus := status_eq_unissued_iff.mpr (by
      rw [← Nat.not_lt, ← isSome_slot?_iff, hslot]
      simp)
    refine follows_of_refused rfl ?_ ?_ <;> rw [Request.target, hstatus] <;> rfl
  | inUse hslot =>
    have hstatus := status_of_slot? hslot
    refine follows_of_refused rfl ?_ ?_ <;> rw [Request.target, hstatus] <;> rfl

section

variable [Region α T]

/-- What a request gives, or why it is refused. -/
def answer (c : Canvas α T) (r : Request α T) : Except Error (Answer α T) :=
  (c.perform r).map (·.1)

theorem performed (c : Canvas α T) (r : Request α T) :
    Performed c r (c.answer r) (c.after r) := by
  cases r with
  | insert d =>
    simp only [answer, after, perform, insert_eq, Except.map]
    exact .inserted
  | restore k d =>
    cases hslot : c.slot? k with
    | none =>
      simp only [answer, after, perform, restore_of_none hslot, Except.map]
      exact .unissued hslot
    | some s =>
      cases s with
      | none =>
        simp only [answer, after, perform, restore_of_vacant hslot, Except.map]
        exact .restored hslot
      | some d' =>
        simp only [answer, after, perform, restore_of_live hslot, Except.map]
        exact .inUse hslot
  | remove k =>
    cases hd : c.get? k with
    | none =>
      simp only [answer, after, perform, remove_of_none hd, Except.map]
      exact .absent rfl hd
    | some d =>
      simp only [answer, after, perform, remove_of_some hd, Except.map]
      exact .removed (get?_eq_some_iff.mp hd)
  | setItem k _ | setOrder k _ | setFlags k _ =>
    cases hd : c.get? k with
    | none =>
      simp only [answer, after, perform, setItem, setOrder, setFlags, update_of_none hd, Except.map]
      exact .absent rfl hd
    | some d =>
      simp only [answer, after, perform, setItem, setOrder, setFlags, update_of_some hd, Except.map]
      exact .revised rfl (get?_eq_some_iff.mp hd) fun _ => rfl
  | applyTransform k _ _ | setTransform k _ =>
    cases hd : c.get? k with
    | none =>
      simp only [answer, after, perform, applyTransform, setTransform, mapTransform,
        update_of_none hd, Except.map]
      exact .absent rfl hd
    | some d =>
      simp only [answer, after, perform, applyTransform, setTransform, mapTransform,
        update_of_some hd, Except.map]
      exact .revised rfl (get?_eq_some_iff.mp hd) fun _ => rfl

end

/-! ## Counting -/

section counting

variable {c c' : Canvas α T} {r : Request α T} {a : Except Error (Answer α T)}

omit [Scalar α] in
theorem size_put_add {k : Key} {s : Option (Drawable α T)} (h : c.slot? k = some s)
    (s' : Option (Drawable α T)) :
    (c.put k s').size + s.isSome.toNat = c.size + s'.isSome.toNat :=
  (live_add_isSome h s').symm

omit [Scalar α] in
theorem size_extend_some (c : Canvas α T) (d : Drawable α T) :
    (c.extend (some d)).size = c.size + 1 := by
  simp [size, extend, ofSlots, c.live_eq]

theorem Performed.slots_size (h : Performed c r a c') :
    c'.slots.size = c.slots.size + r.inserts.toNat := by
  cases h with
  | inserted => simp [Request.inserts]
  | removed | restored => simp [Request.inserts]
  | revised hr =>
    simp [Request.inserts_of_needsObject (Request.needsObject_of_sets hr)]
  | absent hr => simp [Request.inserts_of_needsObject hr]
  | unissued | inUse => simp [Request.inserts]

theorem Performed.size_eq (h : Performed c r a c') : c'.size = tally c.size a := by
  cases h with
  | inserted => exact size_extend_some c _
  | removed hslot =>
    have hsize := size_put_add hslot none
    simp only [Option.isSome_some, Option.isSome_none, Bool.toNat_true, Bool.toNat_false] at hsize
    simp only [tally]
    omega
  | restored hslot => simpa [tally] using size_put_add hslot (some _)
  | revised _ hslot ha => simpa [ha] using size_put_add hslot (some _)
  | absent | unissued | inUse => rfl

theorem Performed.given?_eq (h : Performed c r a c') :
    given? a = if r.inserts then some c.nextKey else none := by
  cases h with
  | inserted => rfl
  | removed | restored | unissued | inUse => rfl
  | @revised _ _ a hr _ ha =>
    rw [Request.inserts_of_needsObject (Request.needsObject_of_sets hr)]
    cases a with
    | key k => exact absurd (ha 0) (Nat.succ_ne_zero 0)
    | _ => rfl
  | absent hr =>
    rw [Request.inserts_of_needsObject hr]
    rfl

end counting

/-! ## The objects in order -/

section objects

variable {c : Canvas α T}

omit [Scalar α]

theorem mem_objects_iff (h : c.slots.size ≤ UInt32.size) {k : Key} {d : Drawable α T} :
    (k, d) ∈ c.objects ↔ c.get? k = some d := by
  rw [get?_eq_some_iff, slot?]
  simp only [objects, List.mem_filterMap, List.mem_zipIdx_iff_getElem?, Array.getElem?_toList,
    Prod.exists]
  constructor
  · rintro ⟨slot, n, hslot, hmap⟩
    obtain ⟨d', rfl, heq⟩ := Option.map_eq_some_iff.mp hmap
    cases heq
    have hlt : n < c.slots.size := (Array.getElem?_eq_some_iff.mp hslot).1
    rw [Key.slot_ofSlot (by omega), hslot]
  · intro hslot
    refine ⟨some d, k.slot, hslot, ?_⟩
    have hkey : Key.ofSlot k.slot = k := Key.slot_inj (Key.slot_ofSlot k.index.toNat_lt)
    rw [Option.map_some, hkey]

theorem pairwise_objects (h : c.slots.size ≤ UInt32.size) :
    (c.objects.map (·.1.slot)).Pairwise (· < ·) := by
  have hplaces : c.slots.toList.zipIdx.Pairwise (·.2 < ·.2) := by
    rw [← List.pairwise_map, List.zipIdx_map_snd]
    exact List.pairwise_lt_range' 1
  rw [List.pairwise_map, objects, List.pairwise_filterMap]
  refine hplaces.imp_of_mem ?_
  rintro ⟨slot, n⟩ ⟨slot', n'⟩ hmem hmem' hlt b hb b' hb'
  obtain ⟨d, -, rfl⟩ := Option.map_eq_some_iff.mp hb
  obtain ⟨d', -, rfl⟩ := Option.map_eq_some_iff.mp hb'
  have hn' := (List.getElem?_eq_some_iff.mp (List.mem_zipIdx_iff_getElem?.mp hmem')).1
  simp only [Array.length_toList] at hn' hlt
  simp only [Key.slot_ofSlot (show n < UInt32.size by omega),
    Key.slot_ofSlot (show n' < UInt32.size by omega)]
  exact hlt

theorem objects_extend (c : Canvas α T) (d : Drawable α T) :
    (c.extend (some d)).objects = c.objects ++ [(c.nextKey, d)] := by
  simp [objects, extend, ofSlots, nextKey, List.zipIdx_append]

/-- The number of objects is the number of keys that have one. -/
theorem size_eq_countP {keys : List Key} (h : keys.map Key.slot = List.range c.slots.size) :
    c.size = keys.countP c.contains := by
  have hslots : keys.map c.contains = c.slots.toList.map Option.isSome := by
    have hcontains : c.contains = (fun n => c.slots[n]?.join.isSome) ∘ Key.slot := rfl
    rw [hcontains, ← List.map_map, h]
    apply List.ext_getElem
    · simp
    · intro i hi hi'
      simp at hi
      simp [hi]
  calc c.size = c.slots.toList.countP Option.isSome := by
        rw [size, c.live_eq, Array.countP_toList]
    _ = (c.slots.toList.map Option.isSome).countP id := by rw [List.countP_map]; rfl
    _ = (keys.map c.contains).countP id := by rw [hslots]
    _ = keys.countP c.contains := by rw [List.countP_map]; rfl

end objects

/-! ## Sessions -/

section sessions

variable [Region α T]

/-- The answers in the course of a session. -/
def answers (c : Canvas α T) : List (Request α T) → List (Except Error (Answer α T))
  | [] => []
  | r :: rs => c.answer r :: answers (c.after r) rs

/-- The keys given out in the course of a session. -/
def issued (c : Canvas α T) (rs : List (Request α T)) : List Key := (c.answers rs).filterMap given?

theorem run_append (c : Canvas α T) (rs rs' : List (Request α T)) :
    c.run (rs ++ rs') = (c.run rs).run rs' :=
  List.foldl_append

theorem after_insert (c : Canvas α T) (d : Drawable α T) :
    c.after (.insert d) = c.extend (some d) := by
  simp only [after, perform, insert_eq]

theorem run_replicate_insert (c : Canvas α T) (n : Nat) (d : Drawable α T) :
    c.run (List.replicate n (.insert d)) = c.extendBy n d := by
  induction n generalizing c with
  | zero => exact (extendBy_zero c d).symm
  | succ n ih =>
    show (c.after (.insert d)).run (List.replicate n (.insert d)) = _
    rw [after_insert, ih, extendBy_extend]

theorem slots_size_run (c : Canvas α T) (rs : List (Request α T)) :
    (c.run rs).slots.size = c.slots.size + rs.countP Request.inserts := by
  induction rs generalizing c with
  | nil => rfl
  | cons r rs ih =>
    have hrest := ih (c.after r)
    rw [(performed c r).slots_size] at hrest
    show ((c.after r).run rs).slots.size = _
    rw [hrest, List.countP_cons, Nat.add_assoc, Nat.add_comm (rs.countP _)]
    cases r.inserts <;> rfl

theorem map_slot_issued (c : Canvas α T) (rs : List (Request α T))
    (hroom : c.slots.size + rs.countP Request.inserts ≤ UInt32.size) :
    (c.issued rs).map Key.slot = List.range' c.slots.size (rs.countP Request.inserts) := by
  induction rs generalizing c with
  | nil => rfl
  | cons r rs ih =>
    have hslots := (performed c r).slots_size
    have hgiven := (performed c r).given?_eq
    have hissued : c.issued (r :: rs) = (given? (c.answer r)).toList ++ (c.after r).issued rs := by
      simp only [issued, answers, List.filterMap_cons]
      cases given? (c.answer r) <;> rfl
    rw [List.countP_cons] at hroom ⊢
    rw [hissued, hgiven]
    cases hinserts : r.inserts with
    | false =>
      simp only [hinserts, Bool.toNat_false, Nat.add_zero, Bool.false_eq_true, if_false] at *
      rw [← hslots] at hroom ⊢
      simpa using ih (c.after r) hroom
    | true =>
      simp only [hinserts, Bool.toNat_true, if_true] at *
      have hrest := ih (c.after r) (by omega)
      have hnext : c.nextKey.slot = c.slots.size := slot_nextKey (by omega)
      simp only [Option.toList_some, List.singleton_append, List.map_cons, hnext, hrest, hslots,
        List.range'_succ]

theorem size_run (c : Canvas α T) (rs : List (Request α T)) :
    (c.run rs).size = (c.answers rs).foldl tally c.size := by
  induction rs generalizing c with
  | nil => rfl
  | cons r rs ih =>
    have hrest := ih (c.after r)
    rw [(performed c r).size_eq] at hrest
    exact hrest

/-- **The canvas is a map from keys to objects that never gives out a key twice.** -/
theorem run_refines_map (rs : List (Request α T))
    (hroom : rs.countP Request.inserts < UInt32.size) :
    let c := (empty : Canvas α T).run rs
    let keys := (empty : Canvas α T).issued rs
    (keys.map Key.slot = List.range (rs.countP Request.inserts) ∧ keys.Nodup) ∧
    (∀ k, (c.status k = .live ↔ c.contains k = true) ∧
      (c.status k = .vacant ↔ c.isVacant k = true) ∧ (c.status k = .unissued ↔ k ∉ keys)) ∧
    (∀ pre r post, rs = pre ++ r :: post →
      Follows ((empty : Canvas α T).run pre) r (((empty : Canvas α T).run pre).answer r)
        (((empty : Canvas α T).run pre).after r)) ∧
    (c.size = keys.countP c.contains ∧
      c.size = ((empty : Canvas α T).answers rs).foldl tally 0) ∧
    (∀ k d, (k, d) ∈ c.objects ↔ c.get? k = some d) ∧
      (c.objects.map (·.1.slot)).Pairwise (· < ·) := by
  intro c keys
  have hempty : (empty : Canvas α T).slots.size = 0 := rfl
  have hsize : c.slots.size = rs.countP Request.inserts := by
    rw [slots_size_run, hempty, Nat.zero_add]
  have hkeys : keys.map Key.slot = List.range (rs.countP Request.inserts) := by
    rw [map_slot_issued empty rs (by omega), hempty, List.range_eq_range']
  have hmem : ∀ k, k ∈ keys ↔ k.slot < c.slots.size := by
    intro k
    rw [hsize, ← List.mem_range, ← hkeys, List.mem_map]
    exact ⟨fun hk => ⟨k, hk, rfl⟩, fun ⟨l, hl, hslot⟩ => Key.slot_inj hslot ▸ hl⟩
  have hnodup : keys.Nodup := by
    have hslots : (keys.map Key.slot).Nodup := hkeys ▸ List.nodup_range
    exact (List.pairwise_map.mp hslots).imp fun hne heq => hne (congrArg Key.slot heq)
  refine ⟨⟨hkeys, hnodup⟩, fun k => ⟨status_eq_live_iff, status_eq_vacant_iff, ?_⟩,
    fun pre r post hrs => ?_, ⟨size_eq_countP (hsize ▸ hkeys), size_run empty rs⟩,
    fun k d => mem_objects_iff (by omega), pairwise_objects (by omega)⟩
  · rw [status_eq_unissued_iff, hmem, Nat.not_lt]
  · refine (performed _ r).follows fun hinserts => ?_
    rw [hrs, List.countP_append, List.countP_cons, hinserts, if_pos rfl] at hroom
    rw [slots_size_run, hempty]
    omega

theorem run_refines_map_restored :
    let d : Drawable Float (Shape Float) := ⟨.rect ⟨0, 0, 1, 1⟩, .identity, 0, default⟩
    let rs : List (Request Float (Shape Float)) :=
      [.insert d, .insert d, .remove ⟨0⟩, .remove ⟨0⟩, .restore ⟨1⟩ d, .setOrder ⟨1⟩ 3,
        .restore ⟨0⟩ d, .remove ⟨1⟩]
    let c : Canvas Float (Shape Float) := empty.run rs
    rs.countP Request.inserts < UInt32.size ∧
      ((empty : Canvas Float (Shape Float)).issued rs).map Key.slot = [0, 1] ∧
      c.status ⟨0⟩ = .live ∧ c.status ⟨1⟩ = .vacant ∧ c.status ⟨2⟩ = .unissued ∧
      (⟨2⟩ ∉ (empty : Canvas Float (Shape Float)).issued rs) ∧
      c.size = 1 ∧ (⟨0⟩, d) ∈ c.objects := by
  intro d rs c
  have hroom : rs.countP Request.inserts < UInt32.size := by
    have hcount : rs.countP Request.inserts = 2 := rfl
    rw [hcount, UInt32.size]
    omega
  obtain ⟨⟨hkeys, -⟩, hstatus, -, ⟨-, hsize⟩, hobjects, -⟩ := run_refines_map rs hroom
  have hlive : c.contains ⟨0⟩ = true := by decide +kernel
  have hvacant : c.isVacant ⟨1⟩ = true := by decide +kernel
  have hnone : c.status ⟨2⟩ = .unissued := by decide +kernel
  have hget : c.get? ⟨0⟩ = some d := by decide +kernel
  have hcount : ((empty : Canvas Float (Shape Float)).answers rs).foldl tally 0 = 1 := by
    decide +kernel
  -- the name would have the session run again to see that the two sides are the same
  subst c
  exact ⟨hroom, hkeys, (hstatus _).1.mpr hlive, (hstatus _).2.1.mpr hvacant, hnone,
    (hstatus _).2.2.mp hnone, hsize.trans hcount, (hobjects _ _).mpr hget⟩

end sessions

end VectorEditor.Canvas
