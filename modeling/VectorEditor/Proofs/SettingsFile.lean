import Mathlib.Tactic.Choose
import VectorEditor.Proofs.Records
import VectorEditor.Settings

/-!
# Settings files

A settings file names the settings it is about, in any order, among members that mean nothing to the
editor. `Settings.Field` are the settings that it can name, and `Settings.Field.Denotes` says which
values of a document stand for which contents. A file is read exactly if no setting is named twice
and each that is named has a value of its kind, and then it gives these contents and the defaults of
all others (`Settings.ofJson?_eq_some_iff`). So neither the order of the members nor foreign ones
make a difference (`Settings.file_read_by_key`).
-/

namespace VectorEditor

variable {α : Type}

namespace Settings

/-! ## Values and what they stand for -/

section

variable [Decimal.Readable α]

inductive IsNumber : Json → α → Prop
  | literal {l : Decimal.Literal} {x : α} (h : Decimal.Readable.ofLiteral? l = some x) :
    IsNumber (.number l) x

inductive IsFlag : Json → Bool → Prop
  | bool (b : Bool) : IsFlag (.bool b) b

/-- A whole number below a bound, written without sign, point and exponent. -/
inductive IsCount (bound : Nat) : Json → Nat → Prop
  | literal {l : Decimal.Literal} (hwhole : l.whole = true) (hsign : l.negative = false)
    (hbound : l.significand < bound) : IsCount bound (.number l) l.significand

/-- A count, or no limit at all. -/
inductive IsLimit (bound : Nat) : Json → Option Nat → Prop
  | unlimited : IsLimit bound .null none
  | limit {v : Json} {n : Nat} (h : IsCount bound v n) : IsLimit bound v (some n)

/-- The width and the height, by their names among other members, or one after the other. -/
inductive IsSize : Json → Size α → Prop
  | object {members : List (String × Json)} {w h : Json} {width height : α}
    (hw : members.filter (·.1 = "width") = [("width", w)])
    (hh : members.filter (·.1 = "height") = [("height", h)])
    (hwidth : IsNumber w width) (hheight : IsNumber h height) :
    IsSize (.ofMembers members) ⟨width, height⟩
  | array {w h : Json} {width height : α} (hwidth : IsNumber w width)
    (hheight : IsNumber h height) : IsSize (.array [w, h]) ⟨width, height⟩

end

namespace Field

/-- Which value of a document stands for which content of a setting. -/
def Denotes [Decimal.Readable α] : (f : Field) → Json → f.Content α → Prop
  | majorSpacing => @IsNumber α _
  | minorCount => IsCount UInt32.size
  | snapping => IsFlag
  | useWorldFrame => IsFlag
  | livePreview => IsFlag
  | historyLimit => IsLimit UInt64.size
  | viewSize => @IsSize α _

end Field

@[simp] theorem get_ofContents (content : (f : Field) → f.Content α) (f : Field) :
    (ofContents content).get f = content f := by
  cases f <;> rfl

theorem eq_of_get {s t : Settings α} (h : ∀ f, s.get f = t.get f) : s = t :=
  Settings.ext (h .majorSpacing) (h .minorCount) (h .snapping) (h .useWorldFrame)
    (h .livePreview) (h .historyLimit) (h .viewSize)

/-! ## Readers -/

section

variable [Decimal.Readable α]

theorem number?_eq_some_iff {v : Json} {x : α} : number? v = some x ↔ IsNumber v x := by
  constructor
  · intro h
    cases v with
    | number l => exact .literal h
    | null | bool | string | array | object => cases h
  · rintro ⟨h⟩
    exact h

theorem bool?_eq_some_iff {v : Json} {b : Bool} : bool? v = some b ↔ IsFlag v b := by
  constructor
  · intro h
    cases v with
    | bool b' =>
      cases h
      exact .bool b
    | null | number | string | array | object => cases h
  · rintro ⟨⟩
    rfl

theorem natBelow?_eq_some_iff {bound : Nat} {v : Json} {n : Nat} :
    natBelow? bound v = some n ↔ IsCount bound v n := by
  constructor
  · intro h
    cases v with
    | number l =>
      simp only [natBelow?, Option.ite_none_right_eq_some, Bool.and_eq_true, Bool.not_eq_true',
        decide_eq_true_eq, Option.some.injEq] at h
      obtain ⟨⟨⟨hwhole, hsign⟩, hbound⟩, rfl⟩ := h
      exact .literal hwhole hsign hbound
    | null | bool | string | array | object => cases h
  · rintro ⟨hwhole, hsign, hbound⟩
    simp [natBelow?, hwhole, hsign, hbound]

theorem nullable?_eq_some_iff {bound : Nat} {v : Json} {limit : Option Nat} :
    nullable? (natBelow? bound) v = some limit ↔ IsLimit bound v limit := by
  constructor
  · intro h
    cases v with
    | null =>
      cases h
      exact .unlimited
    | number l =>
      obtain ⟨n, hn, rfl⟩ := Option.map_eq_some_iff.mp h
      exact .limit (natBelow?_eq_some_iff.mp hn)
    | bool | string | array | object => cases h
  · rintro (_ | hcount)
    · rfl
    · have hread := natBelow?_eq_some_iff.mpr hcount
      cases hcount
      exact Option.map_eq_some_iff.mpr ⟨_, hread, rfl⟩

/-- The part of a size in a field. -/
def SizeField.side (size : Size α) : SizeField → α
  | .width => size.width
  | .height => size.height

theorem size?_array (items : List Json) :
    (size? (.array items) : Option (Size α)) =
      match items with
      | [w, h] => do some ⟨← number? w, ← number? h⟩
      | _ => none := by
  match items with
  | [] => rfl
  | [w] =>
    simp only [size?, Json.Schema.readSlots?, SizeField.schema, Json.Schema.readItems?,
      Json.Schema.readField?]
    cases (number? w : Option α) <;> rfl
  | [w, h] | w :: h :: _ :: _ =>
    simp only [size?, Json.Schema.readSlots?, SizeField.schema, Json.Schema.readItems?,
      Json.Schema.readField?]
    cases (number? w : Option α) with
    | none => rfl
    | some x => cases (number? h : Option α) <;> rfl

theorem size?_eq_some_iff {v : Json} {size : Size α} : size? v = some size ↔ IsSize v size := by
  constructor
  · intro h
    cases v with
    | array items =>
      rw [size?_array] at h
      split at h
      · simp only [Option.bind_eq_bind, Option.bind_eq_some_iff, Option.some.injEq] at h
        obtain ⟨x, hx, y, hy, rfl⟩ := h
        exact .array (number?_eq_some_iff.mp hx) (number?_eq_some_iff.mp hy)
      · cases h
    | object raw =>
      simp only [size?, Option.bind_eq_bind, Option.bind_eq_some_iff, Option.some.injEq] at h
      obtain ⟨slots, hslots, x, hx, y, hy, rfl⟩ := h
      obtain ⟨members, rfl⟩ := Json.Schema.exists_texts_of_readMembers? hslots
      have hfinds := Json.Schema.readMembers?_eq_some_iff.mp hslots
      obtain ⟨w, hw, hwidth⟩ := Json.Schema.finds_some_iff.mp (hx ▸ hfinds .width)
      obtain ⟨h, hh, hheight⟩ := Json.Schema.finds_some_iff.mp (hy ▸ hfinds .height)
      exact .object hw hh (number?_eq_some_iff.mp hwidth) (number?_eq_some_iff.mp hheight)
    | null | bool | number | string => cases h
  · intro h
    cases h with
    | @object members w h width height hw hh hwidth hheight =>
      have hslots : SizeField.schema.readSlots? (.ofMembers members) =
          some fun f => some (f.side ⟨width, height⟩) := by
        refine Json.Schema.readMembers?_eq_some_iff.mpr fun f => ?_
        cases f with
        | width =>
          exact Json.Schema.finds_some_iff.mpr ⟨w, hw, number?_eq_some_iff.mpr hwidth⟩
        | height =>
          exact Json.Schema.finds_some_iff.mpr ⟨h, hh, number?_eq_some_iff.mpr hheight⟩
      simp only [size?, hslots]
      rfl
    | array hwidth hheight =>
      rw [size?_array]
      simp only [number?_eq_some_iff.mpr hwidth, number?_eq_some_iff.mpr hheight]
      rfl

theorem Field.read?_eq_some_iff (f : Field) {v : Json} {x : f.Content α} :
    f.read? v = some x ↔ f.Denotes v x := by
  cases f with
  | majorSpacing => exact number?_eq_some_iff
  | minorCount => exact natBelow?_eq_some_iff
  | snapping | useWorldFrame | livePreview => exact bool?_eq_some_iff
  | historyLimit => exact nullable?_eq_some_iff
  | viewSize => exact size?_eq_some_iff

end

section

variable [Scalar α] [Decimal.Readable α]

/-- What a file with these members says of a setting is this content. -/
structure Says (members : List (String × Json)) (f : Field) (x : f.Content α) : Prop where
  once : (members.map Prod.fst).count f.key ≤ 1
  named (v : Json) (h : (f.key, v) ∈ members) : f.Denotes v x
  unnamed (h : f.key ∉ members.map Prod.fst) : x = (default : Settings α).get f

theorem says_iff {members : List (String × Json)} {f : Field} {x : f.Content α} :
    Says members f x ↔ ∃ found, Field.schema.Finds members f none found ∧
      found.getD ((default : Settings α).get f) = x := by
  constructor
  · rintro ⟨honce, hnamed, hunnamed⟩
    by_cases hfound : f.key ∈ members.map Prod.fst
    · refine ⟨some x, ⟨honce, fun v hv => ?_, fun habsent => absurd hfound habsent⟩, rfl⟩
      exact ⟨x, f.read?_eq_some_iff.mpr (hnamed v hv), rfl⟩
    · refine ⟨none, ⟨honce, fun v hv => ?_, fun _ => rfl⟩, (hunnamed hfound).symm⟩
      exact absurd (List.mem_map_of_mem hv) hfound
  · rintro ⟨found, ⟨honce, hnamed, hunnamed⟩, rfl⟩
    refine ⟨honce, fun v hv => ?_, fun habsent => ?_⟩
    · obtain ⟨x, hread, rfl⟩ := hnamed v hv
      exact f.read?_eq_some_iff.mp hread
    · rw [hunnamed habsent, Option.getD_none]

/-- The settings of a file are what it `Says` of each of them. -/
theorem ofJson?_eq_some_iff {members : List (String × Json)} {s : Settings α} :
    ofJson? (.ofMembers members) = some s ↔ ∀ f, Says members f (s.get f) := by
  simp only [says_iff, ofJson?, Json.ofMembers, Json.Schema.readSlots?, Option.bind_eq_bind,
    Option.bind_eq_some_iff, Json.Schema.readMembers?_eq_some_iff, Option.some.injEq]
  constructor
  · rintro ⟨slots, hfinds, rfl⟩ f
    exact ⟨slots f, hfinds f, by rw [get_ofContents]⟩
  · intro h
    choose slots hslots using h
    refine ⟨slots, fun f => (hslots f).1, eq_of_get fun f => ?_⟩
    rw [get_ofContents, (hslots f).2]

/-! ## Order and foreign members -/

theorem Says.congr {members other : List (String × Json)} {f : Field} {x : f.Content α}
    (hcount : (other.map Prod.fst).count f.key = (members.map Prod.fst).count f.key)
    (hmem : ∀ v, (f.key, v) ∈ other ↔ (f.key, v) ∈ members) (h : Says members f x) :
    Says other f x := by
  refine ⟨?_, fun v hv => h.named v ((hmem v).mp hv), fun habsent => h.unnamed ?_⟩
  · rw [hcount]
    exact h.once
  · rw [← List.count_eq_zero, ← hcount]
    exact List.count_eq_zero.mpr habsent

theorem ofJson?_congr {members other : List (String × Json)}
    (hcount : ∀ f : Field, (other.map Prod.fst).count f.key = (members.map Prod.fst).count f.key)
    (hmem : ∀ (f : Field) (v : Json), (f.key, v) ∈ other ↔ (f.key, v) ∈ members) :
    (ofJson? (.ofMembers other) : Option (Settings α)) = ofJson? (.ofMembers members) := by
  refine Option.ext fun s => ?_
  rw [ofJson?_eq_some_iff, ofJson?_eq_some_iff]
  refine forall_congr' fun f => ⟨fun h => ?_, fun h => ?_⟩
  · exact h.congr (hcount f).symm fun v => (hmem f v).symm
  · exact h.congr (hcount f) (hmem f)

theorem eq_of_count_le_one {members : List (String × Json)} {name : String} {v w : Json}
    (honce : (members.map Prod.fst).count name ≤ 1) (hv : (name, v) ∈ members)
    (hw : (name, w) ∈ members) : v = w := by
  have hv' : (name, v) ∈ members.filter (·.1 = name) := by simp [hv]
  have hw' : (name, w) ∈ members.filter (·.1 = name) := by simp [hw]
  rw [Json.Schema.count_names] at honce
  generalize members.filter (·.1 = name) = found at honce hv' hw'
  match found with
  | [] => cases hv'
  | [m] =>
    have hsame := (List.mem_singleton.mp hv').trans (List.mem_singleton.mp hw').symm
    exact congrArg Prod.snd hsame
  | _ :: _ :: _ => simp at honce

theorem exists_ofJson?_iff {members : List (String × Json)} :
    (∃ s : Settings α, ofJson? (.ofMembers members) = some s) ↔
      (∀ f : Field, (members.map Prod.fst).count f.key ≤ 1) ∧
      ∀ (f : Field) (v : Json), (f.key, v) ∈ members → ∃ x : f.Content α, f.Denotes v x := by
  simp only [ofJson?_eq_some_iff]
  constructor
  · rintro ⟨s, hs⟩
    exact ⟨fun f => (hs f).once, fun f v hv => ⟨s.get f, (hs f).named v hv⟩⟩
  · rintro ⟨honce, hkind⟩
    have hsays : ∀ f : Field, ∃ x : f.Content α, Says members f x := by
      intro f
      by_cases hnamed : f.key ∈ members.map Prod.fst
      · obtain ⟨⟨name, v⟩, hv, hname⟩ := List.mem_map.mp hnamed
        obtain rfl : name = f.key := hname
        obtain ⟨x, hx⟩ := hkind f v hv
        refine ⟨x, honce f, fun w hw => ?_, fun habsent => absurd hnamed habsent⟩
        rw [eq_of_count_le_one (honce f) hw hv]
        exact hx
      · refine ⟨(default : Settings α).get f, honce f, fun v hv => ?_, fun _ => rfl⟩
        exact absurd (List.mem_map_of_mem hv) hnamed
    choose content hcontent using hsays
    refine ⟨ofContents content, fun f => ?_⟩
    rw [get_ofContents]
    exact hcontent f

/-- **A settings file is read by key**, whatever the order of its members and the foreign ones. -/
theorem file_read_by_key (members : List (String × Json)) :
    let read : List (String × Json) → Option (Settings α) := fun ms => ofJson? (.ofMembers ms)
    ((∃ s, read members = some s) ↔
      (∀ f : Field, (members.map Prod.fst).count f.key ≤ 1) ∧
      ∀ (f : Field) (v : Json), (f.key, v) ∈ members → ∃ x : f.Content α, f.Denotes v x) ∧
    (∀ s, read members = some s → ∀ f : Field,
      (∀ v, (f.key, v) ∈ members → ∀ x, f.Denotes v x ↔ x = s.get f) ∧
      (f.key ∉ members.map Prod.fst → s.get f = (default : Settings α).get f)) ∧
    (∀ other, other.Perm members → read other = read members) ∧
    (∀ before after foreign, members = before ++ after →
      (∀ m ∈ foreign, ∀ f : Field, m.1 ≠ f.key) →
      read (before ++ foreign ++ after) = read members) ∧
    ∀ raw, (∃ s : Settings α, ofJson? (.object raw) = some s) →
      ∃ ms, Json.object raw = .ofMembers ms := by
  intro read
  refine ⟨exists_ofJson?_iff, fun s hs f => ⟨fun v hv x => ?_, ?_⟩, fun other hperm => ?_, ?_, ?_⟩
  · have hdenotes := (ofJson?_eq_some_iff.mp hs f).named v hv
    constructor
    · intro hx
      have hread := f.read?_eq_some_iff.mpr hx
      rw [f.read?_eq_some_iff.mpr hdenotes] at hread
      exact (Option.some.inj hread).symm
    · rintro rfl
      exact hdenotes
  · exact (ofJson?_eq_some_iff.mp hs f).unnamed
  · exact ofJson?_congr (fun f => (hperm.map Prod.fst).count_eq f.key) fun f v => hperm.mem_iff
  · rintro before after foreign rfl hforeign
    have hnone : ∀ f : Field, f.key ∉ foreign.map Prod.fst := by
      intro f hmem
      obtain ⟨m, hm, hkey⟩ := List.mem_map.mp hmem
      exact hforeign m hm f hkey
    refine ofJson?_congr (fun f => ?_) fun f v => ?_
    · simp only [List.map_append, List.count_append, List.count_eq_zero.mpr (hnone f), Nat.add_zero]
    · have hv : (f.key, v) ∉ foreign := fun hmem => hforeign _ hmem f rfl
      simp only [List.mem_append, hv, or_false]
  · rintro raw ⟨s, hs⟩
    obtain ⟨slots, hslots, -⟩ := Option.bind_eq_some_iff.mp hs
    obtain ⟨ms, rfl⟩ := Json.Schema.exists_texts_of_readMembers? hslots
    exact ⟨ms, rfl⟩

theorem file_read_by_key_foreign :
    let limit : String × Json := ("historyLimit", .number ⟨false, 64, 0, true⟩)
    let snap : String × Json := ("defaultGridSnap", .bool true)
    let foreign : String × Json :=
      ("window", .object [(.broken, .array [.null]), (.text "viewSize", .bool true)])
    (ofJson? (.ofMembers [limit, snap]) : Option (Settings Float)) =
        some { (default : Settings Float) with snapping := true, historyLimit := some 64 } ∧
      (∀ f : Field, foreign.1 ≠ f.key) ∧
      (ofJson? (.ofMembers [snap, foreign, limit]) : Option (Settings Float)) =
        some { (default : Settings Float) with snapping := true, historyLimit := some 64 } := by
  intro limit snap foreign
  have hread : (ofJson? (.ofMembers [limit, snap]) : Option (Settings Float)) =
      some { (default : Settings Float) with snapping := true, historyLimit := some 64 } := by
    rfl
  have hforeign : ∀ f : Field, foreign.1 ≠ f.key := by
    intro f
    cases f <;> simp [foreign, Field.key]
  obtain ⟨-, -, hperm, -, -⟩ := file_read_by_key (α := Float) [limit, snap]
  obtain ⟨-, -, -, hinsert, -⟩ := file_read_by_key (α := Float) [snap, limit]
  refine ⟨hread, hforeign, ?_⟩
  calc (ofJson? (.ofMembers [snap, foreign, limit]) : Option (Settings Float))
      = ofJson? (.ofMembers [snap, limit]) :=
        hinsert [snap] [limit] [foreign] rfl fun m hm f => by
          rw [List.mem_singleton.mp hm]
          exact hforeign f
    _ = ofJson? (.ofMembers [limit, snap]) := hperm _ (List.Perm.swap limit snap [])
    _ = some { (default : Settings Float) with snapping := true, historyLimit := some 64 } := hread

end

end Settings

end VectorEditor
