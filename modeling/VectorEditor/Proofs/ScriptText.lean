import VectorEditor.Proofs.NumberText
import VectorEditor.Transform.Script

/-!
# The text of a transform identifies it

Splitting undoes joining when no piece has the first character of the separator
(`Separator.split_intercalate`). The numbers of a tuple have no comma, so the tuple is split into their
texts, and each text has one number. Main statement: the text in a script determines the transform
(`ScriptTransform.text_determines_transform`).
-/

namespace VectorEditor

/-! ## Splitting at a separator -/

namespace Separator

open String.Slice.Pattern

variable {c : Char} {mark : String} {s : String.Slice}

theorem not_matchesAt {p : s.Pos} {d : Char} {t u : String}
    (hp : p.Splits t (String.singleton d ++ u)) (hd : d ≠ c) :
    ¬ Model.MatchesAt (String.singleton c ++ mark) p := by
  rw [Model.ForwardStringSearcher.matchesAt_iff_splits]
  rintro ⟨t', u', hp'⟩
  have hright := congrArg String.toList (hp.eq_right hp')
  simp only [String.toList_append, String.toList_singleton, List.cons_append,
    List.cons.injEq] at hright
  exact hd hright.1

section

variable [Model.StrictPatternModel (String.singleton c ++ mark)]

theorem split_skip {first p q : s.Pos} {t u v : String} (hfirst : first ≤ p) (hfirst' : first ≤ q)
    (hp : p.Splits t (u ++ v)) (hq : q.Splits (t ++ u) v) (hu : c ∉ u.toList) :
    Model.split (String.singleton c ++ mark) first p hfirst =
      Model.split (String.singleton c ++ mark) first q hfirst' := by
  induction hcs : u.toList generalizing p t u with
  | nil =>
    rw [String.toList_eq_nil_iff] at hcs
    rw [hcs, String.append_empty] at hq
    have heq : p = q := hp.pos_eq hq
    subst heq
    rfl
  | cons d ds ih =>
    have hsingle : u = String.singleton d ++ String.ofList ds := by
      rw [← String.toList_inj]
      simpa using hcs
    rw [hcs, List.mem_cons, not_or] at hu
    rw [hsingle, String.append_assoc] at hp
    rw [hsingle, ← String.append_assoc] at hq
    rw [Model.split_eq_next_of_not_matchesAt hp.ne_endPos_of_singleton
      (not_matchesAt hp (Ne.symm hu.1))]
    exact ih _ hp.next hq (by simpa using hu.2) (by simp)

/-- The pieces from a position on. -/
noncomputable def pieces (c : Char) (mark : String)
    [Model.StrictPatternModel (String.singleton c ++ mark)] (p : s.Pos) : List String :=
  (Model.split (String.singleton c ++ mark) p p (Std.le_refl p)).map (·.toSlice.copy)

theorem copy_subslice {p q : s.Pos} {t u v : String} (hp : p.Splits t (u ++ v))
    (hq : q.Splits (t ++ u) v) (h : p ≤ q) : (s.subslice p q h).toSlice.copy = u := by
  obtain ⟨_, hcopy⟩ := String.Slice.copy_slice_eq_iff_splits.2 ⟨t, v, hp, hq⟩
  rw [String.Slice.toSlice_subslice, hcopy]

theorem pieces_last {p : s.Pos} {t u : String} (hp : p.Splits t u) (hu : c ∉ u.toList) :
    pieces c mark p = [u] := by
  have hend : s.endPos.Splits (t ++ u) "" :=
    String.Slice.splits_endPos_iff.2 ⟨hp.eq_append.symm, rfl⟩
  rw [← String.append_empty (s := u)] at hp
  have hle : p ≤ s.endPos := (hp.le_iff_exists_eq_append hend).2 ⟨u, rfl, rfl⟩
  rw [pieces, split_skip (Std.le_refl p) hle hp hend hu, Model.split_endPos, List.map_singleton,
    copy_subslice hp hend hle]

theorem exists_pieces_cons {p : s.Pos} {t u v : String}
    (hp : p.Splits t (u ++ (String.singleton c ++ mark ++ v))) (hu : c ∉ u.toList) :
    ∃ (r : s.Pos) (t' : String), r.Splits t' v ∧ pieces c mark p = u :: pieces c mark r := by
  have hcopy : s.copy = t ++ u ++ (String.singleton c ++ mark ++ v) := by
    rw [hp.eq_append, ← String.append_assoc]
  -- the places where the separator begins and where it ends
  have hq := String.Slice.Pos.splits_ofEqAppend hcopy
  rw [← String.append_assoc] at hcopy
  have hr := String.Slice.Pos.splits_ofEqAppend hcopy
  have hle := (hp.le_iff_exists_eq_append hq).2 ⟨u, rfl, rfl⟩
  refine ⟨_, _, hr, ?_⟩
  rw [pieces, split_skip (Std.le_refl p) hle hp hq hu,
    Model.split_eq_of_isLongestMatchAt
      (Model.ForwardStringSearcher.isLongestMatchAt_iff_splits.2 ⟨_, _, hq, hr⟩),
    List.map_cons, copy_subslice hp hq hle]
  rfl

theorem pieces_intercalate {l : List String} (hne : l ≠ []) (hl : ∀ u ∈ l, c ∉ u.toList)
    {p : s.Pos} {t : String} (hp : p.Splits t ((String.singleton c ++ mark).intercalate l)) :
    pieces c mark p = l := by
  induction l generalizing p t with
  | nil => exact absurd rfl hne
  | cons u l ih =>
    have hu : c ∉ u.toList := hl u List.mem_cons_self
    cases l with
    | nil =>
      rw [String.intercalate_singleton] at hp
      exact pieces_last hp hu
    | cons v l =>
      rw [String.intercalate_cons_cons, String.append_assoc] at hp
      obtain ⟨r, t', hr, hpieces⟩ := exists_pieces_cons hp hu
      rw [hpieces, ih (by simp) (fun w hw => hl w (List.mem_cons_of_mem u hw)) hr]

end

/-- Splitting undoes joining. -/
theorem split_intercalate (c : Char) (mark : String) {l : List String} (hne : l ≠ [])
    (hl : ∀ u ∈ l, c ∉ u.toList) :
    (((String.singleton c ++ mark).intercalate l).split (String.singleton c ++ mark)).toList.map
      String.Slice.copy = l := by
  have hsep : String.singleton c ++ mark ≠ "" := by
    intro h
    simpa using congrArg String.toList h
  have := Model.ForwardStringSearcher.strictPatternModel hsep
  have := Model.ForwardStringSearcher.lawfulToForwardSearcherModel hsep
  have hstart := String.Slice.splits_startPos ((String.singleton c ++ mark).intercalate l).toSlice
  rw [String.copy_toSlice] at hstart
  rw [String.split, String.Slice.toList_split_eq_splitToSubslice,
    toList_splitToSubslice_eq_modelSplit, List.map_map]
  exact pieces_intercalate hne hl hstart

end Separator

/-! ## Tuples -/

namespace ScriptTransform

open Decimal

theorem comma_notMem_text (x : Float) : ',' ∉ (Printable.text x).toList := by
  intro h
  exact absurd (minus_or_isMark_of_mem_text h) (by decide)

/-- What stands between the parentheses. -/
def body {α : Type} [Printable α] (s : ScriptTransform α) : String :=
  ", ".intercalate (s.toList.map Printable.text)

theorem text_eq {α : Type} [Printable α] (s : ScriptTransform α) :
    s.text = "(" ++ s.body ++ ")" := rfl

theorem body_inj {α : Type} [Printable α] {s s' : ScriptTransform α} (h : s.text = s'.text) :
    s.body = s'.body := by
  rw [text_eq, text_eq, String.append_left_inj, String.append_right_inj] at h
  exact h

theorem split_body (s : ScriptTransform Float) :
    (s.body.split ", ").toList.map String.Slice.copy = s.toList.map Printable.text := by
  refine Separator.split_intercalate ',' " " (by simp [toList]) ?_
  intro u hu
  obtain ⟨x, -, rfl⟩ := List.mem_map.1 hu
  exact comma_notMem_text x

theorem eq_of_texts {s s' : ScriptTransform Float} (hs : ∀ x ∈ s.toList, x.isNaN = false)
    (h : s.toList.map Printable.text = s'.toList.map Printable.text) : s = s' := by
  have hinj : ∀ x ∈ s.toList, ∀ y, Printable.text x = Printable.text y → x = y :=
    fun x hx y hxy => text_inj (hs x hx) hxy
  simp only [toList, List.map_cons, List.map_nil, List.cons.injEq, and_true] at h
  simp only [toList, List.forall_mem_cons] at hinj
  obtain ⟨hx, hy, hxx, hxy, hyx, hyy⟩ := h
  obtain ⟨ix, iy, ixx, ixy, iyx, iyy, -⟩ := hinj
  exact ScriptTransform.ext (ix _ hx) (iy _ hy) (ixx _ hxx) (ixy _ hxy) (iyx _ hyx) (iyy _ hyy)

/-- **The text in a script determines the transform.** -/
theorem text_determines_transform {t : Affine Float}
    (ht : ∀ x ∈ [t.a, t.b, t.c, t.d, t.e, t.f], x.isNaN = false) :
    (∀ u : Affine Float, (ofAffine u).text = (ofAffine t).text → u = t) ∧
    ∃ body : String, (ofAffine t).text = "(" ++ body ++ ")" ∧
      (body.split ", ").toList.map String.Slice.copy =
        [t.e, t.f, t.a, t.c, t.b, t.d].map Printable.text ∧
      ∀ s : ScriptTransform Float,
        s.toList.map Printable.text = (body.split ", ").toList.map String.Slice.copy ↔
          s.toAffine = t := by
  have hs : ∀ x ∈ (ofAffine t).toList, x.isNaN = false := by
    simp only [ofAffine, toList, List.forall_mem_cons] at ht ⊢
    obtain ⟨ha, hb, hc, hd, he, hf, hnil⟩ := ht
    exact ⟨he, hf, ha, hc, hb, hd, hnil⟩
  have hread : ∀ s : ScriptTransform Float,
      s.toList.map Printable.text = ((ofAffine t).body.split ", ").toList.map String.Slice.copy ↔
        s.toAffine = t := by
    intro s
    rw [split_body]
    constructor
    · intro h
      rw [← eq_of_texts hs h.symm, toAffine_ofAffine]
    · rintro rfl
      rw [ofAffine_toAffine]
  refine ⟨?_, (ofAffine t).body, text_eq _, split_body _, hread⟩
  intro u h
  have hpieces := split_body (ofAffine u)
  rw [body_inj h] at hpieces
  exact (hread (ofAffine u)).1 hpieces.symm

/-- The sign of a zero shift is kept, and so is which axis is sheared how far. -/
theorem text_determines_transform_sheared :
    let t : Affine Float := ⟨1.5, -0.25, 3, 2, -0.0, 0.1⟩
    (∀ x ∈ [t.a, t.b, t.c, t.d, t.e, t.f], x.isNaN = false) ∧
    (∀ u : Affine Float, (ofAffine u).text = "(-0, 0.1, 1.5, 3, -0.25, 2)" → u = t) ∧
    ∃ body : String, "(-0, 0.1, 1.5, 3, -0.25, 2)" = "(" ++ body ++ ")" ∧
      (body.split ", ").toList.map String.Slice.copy = ["-0", "0.1", "1.5", "3", "-0.25", "2"] ∧
      ∀ s : ScriptTransform Float,
        s.toList.map Printable.text = ["-0", "0.1", "1.5", "3", "-0.25", "2"] ↔
          s.toAffine = t := by
  intro t
  have ht : ∀ x ∈ [t.a, t.b, t.c, t.d, t.e, t.f], x.isNaN = false := by decide +kernel
  have htext : (ofAffine t).text = "(-0, 0.1, 1.5, 3, -0.25, 2)" := by decide +kernel
  have htexts : [t.e, t.f, t.a, t.c, t.b, t.d].map Printable.text =
      ["-0", "0.1", "1.5", "3", "-0.25", "2"] := by decide +kernel
  obtain ⟨hunique, body, hbody, hpieces, hread⟩ := text_determines_transform ht
  rw [htext] at hunique hbody
  rw [htexts] at hpieces
  rw [hpieces] at hread
  exact ⟨ht, hunique, body, hbody, hpieces, hread⟩

end ScriptTransform

end VectorEditor
