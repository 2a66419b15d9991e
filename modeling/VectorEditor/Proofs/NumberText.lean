import Mathlib.Data.List.TakeWhile
import Mathlib.Tactic.NormNum
import VectorEditor.Decimal.Text
import VectorEditor.Proofs.ShortestDecimal

/-!
# The text of a number identifies it

A positional text has a value of its own (`positionalValue`), and that of a decimal's text is the
decimal's (`positionalValue_positional`). So the text of a double-precision number gives its sign,
whether it is infinite, and a decimal that rounds to no other number (`Parts.text_inj`). The parts in
turn give back the encoding (`Parts.encoding_ofBits`). Different numbers have different texts
(`text_inj`), and a text consists of a sign, digits, a point and letters
(`minus_or_isMark_of_mem_text`).
-/

namespace VectorEditor.Decimal

/-! ## Positional texts -/

/-- The number that a positional text stands for: all its digits as a whole number, in units of the
last place behind the point. -/
def positionalValue (cs : List Char) : ℚ :=
  (Nat.ofDigitChars 10 (cs.filter (· ≠ '.')) 0 : ℚ) /
    10 ^ ((cs.dropWhile (· ≠ '.')).length - 1)

theorem ne_point_of_notMem {cs : List Char} (h : '.' ∉ cs) : ∀ c ∈ cs, decide (c ≠ '.') = true := by
  intro c hc
  simp only [decide_eq_true_eq]
  rintro rfl
  exact h hc

theorem positionalValue_whole {cs : List Char} (h : '.' ∉ cs) :
    positionalValue cs = Nat.ofDigitChars 10 cs 0 := by
  have hne := ne_point_of_notMem h
  rw [positionalValue, List.filter_eq_self.2 hne, List.dropWhile_eq_nil_iff.2 hne]
  simp

theorem positionalValue_point {front back : List Char} (hfront : '.' ∉ front) (hback : '.' ∉ back) :
    positionalValue (front ++ '.' :: back) =
      (Nat.ofDigitChars 10 (front ++ back) 0 : ℚ) / 10 ^ back.length := by
  have hne := ne_point_of_notMem hfront
  rw [positionalValue, List.filter_append, List.filter_cons_of_neg (by simp),
    List.filter_eq_self.2 hne, List.filter_eq_self.2 (ne_point_of_notMem hback),
    List.dropWhile_append_of_pos hne, List.dropWhile_cons_of_neg (by simp)]
  simp

theorem ofDigitChars_digits (n : ℕ) : Nat.ofDigitChars 10 (digits n) 0 = n :=
  Nat.ofDigitChars_ten_toDigits

theorem isDigit_of_mem_digits {n : ℕ} {c : Char} (h : c ∈ digits n) : c.isDigit = true :=
  Nat.isDigit_of_mem_toDigits (by decide) (by decide) h

theorem isDigit_of_mem_zeros {n : ℕ} {c : Char} (h : c ∈ List.replicate n '0') :
    c.isDigit = true := by
  rw [List.eq_of_mem_replicate h]
  decide

theorem point_notMem {cs : List Char} (h : ∀ c ∈ cs, c.isDigit = true) : '.' ∉ cs :=
  fun hmem => absurd (h '.' hmem) (by decide)

namespace Scientific

/-- A positional text is the digits with zeros behind them, or, with zeros before them, it is parted
by a point with as many places behind it as the exponent says. -/
theorem positional_cases (d : Scientific) :
    (0 ≤ d.exponent ∧
      d.positional = digits d.significand ++ List.replicate d.exponent.toNat '0') ∨
    ∃ (zeros : ℕ) (front back : List Char), d.exponent = -(back.length : ℤ) ∧
      front ++ back = List.replicate zeros '0' ++ digits d.significand ∧
      d.positional = front ++ '.' :: back := by
  unfold positional
  dsimp only
  split
  case isTrue hbehind => exact .inl ⟨by omega, rfl⟩
  case isFalse hbehind =>
    right
    split
    case isTrue hshort =>
      refine ⟨0, (digits d.significand).take _, (digits d.significand).drop _, ?_, ?_, rfl⟩
      · rw [List.length_drop]
        omega
      · exact List.take_append_drop _ _
    case isFalse hlong =>
      refine ⟨(-d.exponent).toNat - (digits d.significand).length + 1, ['0'],
        List.replicate _ '0' ++ digits d.significand, ?_, ?_, rfl⟩
      · rw [List.length_append, List.length_replicate]
        omega
      · rw [List.replicate_succ]
        rfl

theorem positionalValue_positional (d : Scientific) : positionalValue d.positional = d.value := by
  obtain ⟨hexp, htext⟩ | ⟨zeros, front, back, hexp, hdigits, htext⟩ := d.positional_cases
  · have hall : ∀ c ∈ digits d.significand ++ List.replicate d.exponent.toNat '0',
        c.isDigit = true := fun c hc =>
      (List.mem_append.1 hc).elim isDigit_of_mem_digits isDigit_of_mem_zeros
    have hpow : (10 : ℚ) ^ d.exponent.toNat = 10 ^ d.exponent := by
      rw [← zpow_natCast, Int.toNat_of_nonneg hexp]
    rw [htext, positionalValue_whole (point_notMem hall), Nat.ofDigitChars_append,
      Nat.ofDigitChars_replicate_zero, ofDigitChars_digits, value, ← hpow]
    push_cast
    ring
  · have hall : ∀ c ∈ front ++ back, c.isDigit = true := fun c hc =>
      (List.mem_append.1 (hdigits ▸ hc)).elim isDigit_of_mem_zeros isDigit_of_mem_digits
    have hfront : '.' ∉ front := point_notMem fun c hc => hall c (List.mem_append_left back hc)
    have hback : '.' ∉ back := point_notMem fun c hc => hall c (List.mem_append_right front hc)
    rw [htext, positionalValue_point hfront hback, hdigits, Nat.ofDigitChars_append,
      Nat.ofDigitChars_replicate_zero, mul_zero, ofDigitChars_digits, value, hexp, zpow_neg,
      zpow_natCast, div_eq_mul_inv]

theorem isDigit_or_point_of_mem {d : Scientific} {c : Char} (h : c ∈ d.positional) :
    c.isDigit = true ∨ c = '.' := by
  obtain ⟨-, htext⟩ | ⟨zeros, front, back, -, hdigits, htext⟩ := d.positional_cases
  · rw [htext, List.mem_append] at h
    exact .inl (h.elim isDigit_of_mem_digits isDigit_of_mem_zeros)
  · rw [htext, List.mem_append, List.mem_cons, or_left_comm, ← List.mem_append, hdigits,
      List.mem_append] at h
    obtain hpoint | h := h
    · exact .inr hpoint
    · exact .inl (h.elim isDigit_of_mem_zeros isDigit_of_mem_digits)

end Scientific

/-! ## Signs and special numbers -/

namespace Parts

def negative : Parts → Bool
  | .nan => false
  | .infinite negative => negative
  | .finite negative _ _ _ => negative

/-- The text without the sign. -/
def unsignedText : Parts → List Char
  | .nan => ['N', 'a', 'N']
  | .infinite _ => ['i', 'n', 'f']
  | .finite _ m q least => if m = 0 then ['0'] else (shortest m q least).positional

theorem text_eq (p : Parts) : p.text = (if p.negative then ['-'] else []) ++ p.unsignedText := by
  cases p <;> rfl

/-- The characters of a text without its sign: digits and the point, and the letters of what has no
digits. -/
def IsMark (c : Char) : Prop :=
  c.isDigit = true ∨ c = '.' ∨ c ∈ ['i', 'n', 'f', 'N', 'a']

instance (c : Char) : Decidable (IsMark c) := inferInstanceAs (Decidable (_ ∨ _))

theorem isDigit_or_point_of_mem {negative least : Bool} {m : ℕ} {q : ℤ} {c : Char}
    (h : c ∈ (finite negative m q least).unsignedText) : c.isDigit = true ∨ c = '.' := by
  rw [unsignedText] at h
  split at h
  · rw [List.mem_singleton.1 h]
    decide
  · exact Scientific.isDigit_or_point_of_mem h

theorem isMark_of_mem_unsignedText {p : Parts} {c : Char} (h : c ∈ p.unsignedText) :
    IsMark c := by
  cases p with
  | nan =>
    simp only [unsignedText, List.mem_cons, List.not_mem_nil, or_false] at h
    obtain rfl | rfl | rfl := h <;> decide
  | infinite =>
    simp only [unsignedText, List.mem_cons, List.not_mem_nil, or_false] at h
    obtain rfl | rfl | rfl := h <;> decide
  | finite =>
    obtain hdigit | hpoint := isDigit_or_point_of_mem h
    · exact .inl hdigit
    · exact .inr (.inl hpoint)

theorem minus_mem_text_iff (p : Parts) : '-' ∈ p.text ↔ p.negative = true := by
  have hminus : '-' ∉ p.unsignedText := fun h =>
    absurd (isMark_of_mem_unsignedText h) (by decide)
  rw [text_eq, List.mem_append]
  split
  case isTrue hneg => simp [hneg]
  case isFalse hneg => simp [hneg, hminus]

theorem minus_or_isMark_of_mem_text {p : Parts} {c : Char} (h : c ∈ p.text) :
    c = '-' ∨ IsMark c := by
  rw [text_eq, List.mem_append] at h
  obtain h | h := h
  · split at h
    · exact .inl (List.mem_singleton.1 h)
    · exact absurd h (List.not_mem_nil)
  · exact .inr (isMark_of_mem_unsignedText h)

theorem letter_mem_text_iff (p : Parts) : 'N' ∈ p.text ↔ p = .nan := by
  have hletter : 'N' ∈ p.text ↔ 'N' ∈ p.unsignedText := by
    rw [text_eq, List.mem_append]
    split <;> simp
  rw [hletter]
  cases p with
  | nan => decide
  | infinite => simp [unsignedText]
  | finite =>
    refine ⟨fun h => ?_, fun h => absurd h (by simp)⟩
    exact absurd (isDigit_or_point_of_mem h) (by decide)

/-- The parts of a number, zero and infinite numbers included. -/
def IsNumber : Parts → Prop
  | .nan => False
  | .infinite _ => True
  | .finite _ m q least => (m = 0 ∧ q = -1074 ∧ least = false) ∨ IsDouble m q least

theorem positionalValue_finite {negative least : Bool} {m : ℕ} {q : ℤ} (h : 0 < m) :
    positionalValue (finite negative m q least).unsignedText = (shortest m q least).value := by
  rw [unsignedText, if_neg (by omega), Scientific.positionalValue_positional]

theorem positionalValue_zero {negative least : Bool} {q : ℤ} :
    positionalValue (finite negative 0 q least).unsignedText = 0 := by
  rw [unsignedText, if_pos rfl, positionalValue_whole (by decide)]
  rfl

theorem finite_inj {negative negative' least least' : Bool} {m m' : ℕ} {q q' : ℤ}
    (h : (finite negative m q least).IsNumber) (h' : (finite negative' m' q' least').IsNumber)
    (htext : (finite negative m q least).unsignedText =
      (finite negative' m' q' least').unsignedText) : m = m' ∧ q = q' ∧ least = least' := by
  have hvalue := congrArg positionalValue htext
  obtain ⟨rfl, rfl, rfl⟩ | h := h <;> obtain ⟨rfl, rfl, rfl⟩ | h' := h'
  · exact ⟨rfl, rfl, rfl⟩
  · rw [positionalValue_zero, positionalValue_finite h'.pos] at hvalue
    exact absurd hvalue h'.value_shortest_pos.ne
  · rw [positionalValue_zero, positionalValue_finite h.pos] at hvalue
    exact absurd hvalue h.value_shortest_pos.ne'
  · -- one decimal rounds to both
    rw [positionalValue_finite h.pos, positionalValue_finite h'.pos] at hvalue
    exact h.eq_of_contains h' h.contains_shortest (hvalue ▸ h'.contains_shortest)

theorem text_inj {p p' : Parts} (h : p.IsNumber) (h' : p'.IsNumber) (htext : p.text = p'.text) :
    p = p' := by
  have hsign : p.negative = p'.negative := by
    rw [Bool.eq_iff_iff, ← minus_mem_text_iff, ← minus_mem_text_iff, htext]
  have hunsigned : p.unsignedText = p'.unsignedText := by
    rw [text_eq, text_eq, hsign] at htext
    exact List.append_cancel_left htext
  have hinf : ∀ {negative m q least}, ['i', 'n', 'f'] ≠ (finite negative m q least).unsignedText := by
    intro negative m q least heq
    have hmem : 'i' ∈ (finite negative m q least).unsignedText := heq ▸ List.mem_cons_self
    exact absurd (isDigit_or_point_of_mem hmem) (by decide)
  cases p with
  | nan => exact absurd h id
  | infinite negative =>
    cases p' with
    | nan => exact absurd h' id
    | infinite negative' => exact congrArg infinite hsign
    | finite => exact absurd hunsigned hinf
  | finite negative m q least =>
    cases p' with
    | nan => exact absurd h' id
    | infinite => exact absurd hunsigned.symm hinf
    | finite negative' m' q' least' =>
      obtain ⟨rfl, rfl, rfl⟩ := finite_inj h h' hunsigned
      exact congrArg (finite · m q least) hsign

/-! ## Encodings -/

/-- The parts that the sign, the exponent and the tail of an encoding make up. -/
def ofFields (negative : Bool) (field tail : ℕ) : Parts :=
  if field = 0x7ff then (if tail = 0 then .infinite negative else .nan)
  else if field = 0 then .finite negative tail (-1074) false
  else .finite negative (0x10000000000000 + tail) ((field : Int) - 1075) (tail == 0)

theorem ofBits_eq (bits : UInt64) :
    ofBits bits = ofFields (decide (bits.toNat / 2 ^ 63 = 1)) (bits.toNat / 2 ^ 52 % 2 ^ 11)
      (bits.toNat % 2 ^ 52) := by
  have hfield : (bits >>> 52 &&& 0x7ff).toNat = bits.toNat / 2 ^ 52 % 2 ^ 11 := by
    rw [UInt64.toNat_and, UInt64.toNat_shiftRight, ← Nat.and_two_pow_sub_one_eq_mod,
      ← Nat.shiftRight_eq_div_pow]
    rfl
  have htail : (bits &&& 0xfffffffffffff).toNat = bits.toNat % 2 ^ 52 := by
    rw [UInt64.toNat_and, ← Nat.and_two_pow_sub_one_eq_mod]
    rfl
  have hsign : (bits >>> 63 == 1) = decide (bits.toNat / 2 ^ 63 = 1) := by
    rw [Bool.eq_iff_iff, beq_iff_eq, decide_eq_true_eq, ← UInt64.toNat_inj,
      UInt64.toNat_shiftRight, ← Nat.shiftRight_eq_div_pow]
    rfl
  rw [← hfield, ← htail, ← hsign]
  rfl

theorem ofFields_eq_nan_iff {negative : Bool} {field tail : ℕ} :
    ofFields negative field tail = .nan ↔ field = 0x7ff ∧ tail ≠ 0 := by
  unfold ofFields
  split_ifs <;> simp [*]

theorem isNumber_ofFields {negative : Bool} {field tail : ℕ} (htail : tail < 2 ^ 52)
    (h : ofFields negative field tail ≠ .nan) : (ofFields negative field tail).IsNumber := by
  rw [ne_eq, ofFields_eq_nan_iff] at h
  unfold ofFields
  by_cases hinf : field = 0x7ff
  · rw [if_pos hinf, if_pos (by omega)]
    trivial
  · rw [if_neg hinf]
    split
    case isTrue =>
      by_cases hzero : tail = 0
      · exact .inl ⟨hzero, rfl, rfl⟩
      · exact .inr ⟨by omega, by omega, by omega, by omega, by simp; omega⟩
    case isFalse => exact .inr ⟨by omega, by omega, by omega, by omega, by simp⟩

/-- The encoding with these parts, as a whole number. -/
def encoding : Parts → ℕ
  | .nan => 0
  | .infinite negative => negative.toNat * 2 ^ 63 + 0x7ff * 2 ^ 52
  | .finite negative m q _ =>
    negative.toNat * 2 ^ 63 +
      if m < 2 ^ 52 then m else (q + 1075).toNat * 2 ^ 52 + (m - 2 ^ 52)

theorem encoding_ofFields {negative : Bool} {field tail : ℕ} (htail : tail < 2 ^ 52)
    (h : ofFields negative field tail ≠ .nan) :
    (ofFields negative field tail).encoding = negative.toNat * 2 ^ 63 + field * 2 ^ 52 + tail := by
  rw [ne_eq, ofFields_eq_nan_iff] at h
  unfold ofFields
  by_cases hinf : field = 0x7ff
  · have hzero : tail = 0 := by omega
    rw [if_pos hinf, if_pos hzero, encoding, hinf, hzero, add_zero]
  · rw [if_neg hinf]
    split
    case isTrue hleast =>
      rw [encoding, if_pos htail, hleast]
      omega
    case isFalse hnormal =>
      rw [encoding, if_neg (by omega)]
      omega

theorem isNumber_ofBits {bits : UInt64} (h : ofBits bits ≠ .nan) : (ofBits bits).IsNumber := by
  rw [ofBits_eq] at h ⊢
  exact isNumber_ofFields (Nat.mod_lt _ (by decide)) h

theorem encoding_ofBits {bits : UInt64} (h : ofBits bits ≠ .nan) :
    (ofBits bits).encoding = bits.toNat := by
  have hlt : bits.toNat < 2 ^ 64 := bits.toNat_lt
  have hsign : (decide (bits.toNat / 2 ^ 63 = 1)).toNat = bits.toNat / 2 ^ 63 := by
    by_cases hone : bits.toNat / 2 ^ 63 = 1
    · rw [decide_eq_true hone, hone, Bool.toNat_true]
    · rw [decide_eq_false hone, Bool.toNat_false]
      omega
  rw [ofBits_eq] at h ⊢
  rw [encoding_ofFields (Nat.mod_lt _ (by decide)) h, hsign]
  omega

theorem ofBits_inj {bits bits' : UInt64} (h : ofBits bits ≠ .nan) (heq : ofBits bits = ofBits bits') :
    bits = bits' := by
  rw [← UInt64.toNat_inj, ← encoding_ofBits h, ← encoding_ofBits (heq ▸ h), heq]

end Parts

/-! ## Numbers -/

theorem eq_of_toBits_eq {x y : Float} (h : x.toBits = y.toBits) : x = y := by
  obtain ⟨⟨_, _⟩⟩ := x
  obtain ⟨⟨_, _⟩⟩ := y
  cases h
  rfl

theorem isNaN_of_fields {x : Float} (hfield : x.toBits.toNat / 2 ^ 52 % 2 ^ 11 = 0x7ff)
    (htail : x.toBits.toNat % 2 ^ 52 ≠ 0) : x.isNaN = true := by
  have hexponent :
      @Float.Model.UnpackedFloat.unpackExponent .binary64 x.toBits.toBitVec = -1#11 := by
    apply BitVec.eq_of_toNat_eq
    rw [Float.Model.UnpackedFloat.unpackExponent, BitVec.toNat_cast, BitVec.extractLsb_toNat,
      Nat.shiftRight_eq_div_pow]
    exact hfield
  have hmantissa :
      @Float.Model.UnpackedFloat.unpackMantissa .binary64 x.toBits.toBitVec ≠ 0#52 := by
    intro hzero
    have htoNat := congrArg BitVec.toNat hzero
    rw [Float.Model.UnpackedFloat.unpackMantissa, BitVec.toNat_cast, BitVec.extractLsb_toNat,
      Nat.shiftRight_zero] at htoNat
    exact htail htoNat
  change (Float.Model.UnpackedFloat.unpack .binary64 x.toBits.toBitVec).isNaN = true
  unfold Float.Model.UnpackedFloat.unpack
  dsimp only
  rw [if_pos hexponent, if_neg hmantissa]
  rfl

theorem ofBits_ne_nan {x : Float} (h : x.isNaN = false) : Parts.ofBits x.toBits ≠ .nan := by
  rw [Parts.ofBits_eq, ne_eq, Parts.ofFields_eq_nan_iff]
  rintro ⟨hfield, htail⟩
  rw [isNaN_of_fields hfield htail] at h
  exact absurd h (by decide)

theorem toList_text (x : Float) : (Printable.text x).toList = (Parts.ofBits x.toBits).text :=
  String.toList_ofList

theorem text_inj {x y : Float} (hx : x.isNaN = false) (h : Printable.text x = Printable.text y) :
    x = y := by
  have htext : (Parts.ofBits x.toBits).text = (Parts.ofBits y.toBits).text := by
    rw [← toList_text, ← toList_text, h]
  have hx := ofBits_ne_nan hx
  have hy : Parts.ofBits y.toBits ≠ .nan := by
    rwa [ne_eq, ← Parts.letter_mem_text_iff, ← htext, Parts.letter_mem_text_iff]
  have hparts := Parts.text_inj (Parts.isNumber_ofBits hx) (Parts.isNumber_ofBits hy) htext
  exact eq_of_toBits_eq (Parts.ofBits_inj hx hparts)

theorem minus_or_isMark_of_mem_text {x : Float} {c : Char} (h : c ∈ (Printable.text x).toList) :
    c = '-' ∨ Parts.IsMark c := by
  rw [toList_text] at h
  exact Parts.minus_or_isMark_of_mem_text h

end VectorEditor.Decimal
