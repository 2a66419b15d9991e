import Mathlib.Algebra.Order.Field.Power
import Mathlib.Data.Rat.Cast.Order
import Mathlib.Tactic.Linarith
import Mathlib.Tactic.NormNum
import Mathlib.Tactic.Positivity
import Mathlib.Tactic.Ring
import VectorEditor.Decimal.Shortest

/-!
# What the shortest decimal identifies

The exact numbers behind the integer arithmetic. An interval has two ends (`Interval.lower`,
`Interval.upper`), and changing its units moves both by one power of ten (`contains_rescale`), so the
search only ever returns a decimal of the interval (`contains_of_search`). Seventeen digits are
always enough for a double-precision number: its interval is wider than the grid by then
(`contains_shortest`). The intervals of two such numbers have no number in common
(`IsDouble.eq_of_contains`), which is why the decimal identifies the number.
-/

namespace VectorEditor.Decimal

/-- The number that a decimal stands for. -/
def Scientific.value (d : Scientific) : ℚ := d.significand * 10 ^ d.exponent

theorem zpow_mul_pow_toNat_neg {b : ℚ} (hb : b ≠ 0) (e : ℤ) :
    b ^ e * b ^ (-e).toNat = b ^ e.toNat := by
  rw [← zpow_natCast, ← zpow_natCast, ← zpow_add₀ hb]
  congr 1
  omega

theorem length_pos (n : ℕ) : 0 < length n :=
  List.length_pos_of_ne_nil Nat.toDigits_ne_nil

theorem lt_pow_length (n : ℕ) : n < 10 ^ length n :=
  (Nat.length_toDigits_le_iff (by decide) (length_pos n)).1 (le_refl (length n))

theorem pow_length_pred_le {n : ℕ} (hn : 0 < n) : 10 ^ (length n - 1) ≤ n := by
  by_cases hone : length n = 1
  · rw [hone]
    exact hn
  · have hpos := length_pos n
    have hlt : ¬ length n ≤ length n - 1 := by omega
    exact Nat.le_of_not_lt fun h =>
      hlt ((Nat.length_toDigits_le_iff (by decide) (by omega)).2 h)

namespace Interval

variable {i : Interval}

def lower (i : Interval) : ℚ := ((i.num : ℚ) - i.below) / i.den

def upper (i : Interval) : ℚ := ((i.num : ℚ) + i.above) / i.den

/-- The numbers of the interval: those between its ends, and the ends where it is closed. -/
def Contains (i : Interval) (x : ℚ) : Prop :=
  if i.closed then i.lower ≤ x ∧ x ≤ i.upper else i.lower < x ∧ x < i.upper

theorem Contains.lower_le {x : ℚ} (h : i.Contains x) : i.lower ≤ x := by
  unfold Contains at h
  split at h
  · exact h.1
  · exact h.1.le

theorem Contains.le_upper {x : ℚ} (h : i.Contains x) : x ≤ i.upper := by
  unfold Contains at h
  split at h
  · exact h.2
  · exact h.2.le

theorem Contains.inside_of_open {x : ℚ} (h : i.Contains x) (hopen : i.closed = false) :
    i.lower < x ∧ x < i.upper := by
  simpa [Contains, hopen] using h

theorem holds_iff (hden : 0 < i.den) (n : ℕ) : i.holds n = true ↔ i.Contains n := by
  have hden' : (0 : ℚ) < i.den := by exact_mod_cast hden
  unfold holds Contains lower upper
  by_cases hclosed : i.closed = true
  · simp only [hclosed, if_true, Bool.and_eq_true, decide_eq_true_eq]
    rw [div_le_iff₀ hden', le_div_iff₀ hden', sub_le_iff_le_add]
    exact_mod_cast Iff.rfl
  · simp only [hclosed, if_false, Bool.and_eq_true, decide_eq_true_eq, Bool.false_eq_true]
    rw [div_lt_iff₀ hden', lt_div_iff₀ hden', sub_lt_iff_lt_add]
    exact_mod_cast Iff.rfl

/-! ## Changing the units -/

theorem rescale_den_pos (hden : 0 < i.den) (step : ℤ) : 0 < (i.rescale step).den :=
  Nat.mul_pos hden (Nat.pow_pos (by decide))

theorem quotient_rescale (a d : ℚ) (step : ℤ) :
    a * 10 ^ (-step).toNat / (d * 10 ^ step.toNat) * 10 ^ step = a / d := by
  have hpow := zpow_mul_pow_toNat_neg (b := 10) (by norm_num) step
  have hup : (10 : ℚ) ^ step.toNat ≠ 0 := by positivity
  rw [div_mul_eq_mul_div, mul_assoc, mul_comm ((10 : ℚ) ^ _), hpow, mul_div_mul_right _ _ hup]

theorem lower_rescale (step : ℤ) : (i.rescale step).lower * 10 ^ step = i.lower := by
  simp only [lower, rescale, Nat.pow_eq, Nat.cast_mul, Nat.cast_pow, Nat.cast_ofNat]
  rw [← sub_mul, quotient_rescale]

theorem upper_rescale (step : ℤ) : (i.rescale step).upper * 10 ^ step = i.upper := by
  simp only [upper, rescale, Nat.pow_eq, Nat.cast_mul, Nat.cast_pow, Nat.cast_ofNat]
  rw [← add_mul, quotient_rescale]

theorem contains_rescale (step : ℤ) (x : ℚ) :
    (i.rescale step).Contains x ↔ i.Contains (x * 10 ^ step) := by
  have hpos : (0 : ℚ) < 10 ^ step := by positivity
  have hclosed : (i.rescale step).closed = i.closed := rfl
  unfold Contains
  rw [hclosed, ← lower_rescale (i := i) step, ← upper_rescale (i := i) step,
    mul_le_mul_iff_left₀ hpos, mul_le_mul_iff_left₀ hpos, mul_lt_mul_iff_left₀ hpos,
    mul_lt_mul_iff_left₀ hpos]

/-! ## The search -/

theorem holds_of_neighbour? {n : ℕ} (h : i.neighbour? = some n) : i.holds n = true := by
  unfold neighbour? at h
  dsimp only at h
  split at h
  case h_1 hlow hhigh =>
    rw [← Option.some.inj h]
    split
    · exact hhigh
    · exact hlow
  case h_2 hlow _ => rwa [← Option.some.inj h]
  case h_3 _ hhigh => rwa [← Option.some.inj h]
  case h_4 => exact absurd h (by simp)

theorem exists_neighbour? (hden : 0 < i.den) (hbelow : i.den < 2 * i.below)
    (habove : i.den < 2 * i.above) : ∃ n, i.neighbour? = some n := by
  have hdiv : i.den * (i.num / i.den) + i.num % i.den = i.num := Nat.div_add_mod _ _
  have hmod : i.num % i.den < i.den := Nat.mod_lt _ hden
  have hholds : i.holds (i.num / i.den) = true ∨ i.holds (i.num / i.den + 1) = true := by
    by_cases hnear : 2 * (i.num % i.den) ≤ i.den
    · left
      unfold holds
      rw [mul_comm (i.num / i.den)]
      split <;> simp only [Bool.and_eq_true, decide_eq_true_eq] <;> omega
    · right
      unfold holds
      rw [add_mul, one_mul, mul_comm (i.num / i.den)]
      split <;> simp only [Bool.and_eq_true, decide_eq_true_eq] <;> omega
  unfold neighbour?
  dsimp only
  split
  case h_4 hlow hhigh => simp [hlow, hhigh] at hholds
  all_goals exact ⟨_, rfl⟩

theorem contains_of_search (hden : 0 < i.den) {digits fuel : ℕ} {d : Scientific}
    (h : i.search digits fuel = some d) : i.Contains d.value := by
  induction fuel generalizing digits with
  | zero => exact absurd h (by simp [search])
  | succ fuel ih =>
    rw [search] at h
    split at h
    case h_1 n hn =>
      have hcontains : i.Contains (n * 10 ^ (i.magnitude - digits)) := by
        rw [← contains_rescale, ← holds_iff (rescale_den_pos hden _)]
        exact holds_of_neighbour? hn
      rw [← Option.some.inj h]
      split
      case isTrue hzero =>
        -- the last zero goes over into the exponent
        have hten : (n : ℚ) = (n / 10 : ℕ) * 10 := by
          exact_mod_cast (Nat.div_mul_cancel (Nat.dvd_of_mod_eq_zero hzero)).symm
        rw [hten, mul_assoc, ← zpow_one_add₀ (by norm_num), add_comm] at hcontains
        exact hcontains
      case isFalse => exact hcontains
    case h_2 => exact ih h

theorem exists_search {digits fuel last : ℕ} (hfirst : digits ≤ last) (hlast : last < digits + fuel)
    (h : ∃ n, (i.rescale (i.magnitude - last)).neighbour? = some n) :
    ∃ d, i.search digits fuel = some d := by
  induction fuel generalizing digits with
  | zero => omega
  | succ fuel ih =>
    rw [search]
    split
    case h_1 => exact ⟨_, rfl⟩
    case h_2 hnone =>
      -- the grid of `last` digits has a neighbour, so it is not this one
      have hne : digits ≠ last := by
        rintro rfl
        simp [hnone] at h
      exact ih (by omega) (by omega)

theorem pow_magnitude_le (hnum : 0 < i.num) (hden : 0 < i.den) :
    (10 : ℚ) ^ (i.magnitude - 1) * i.den ≤ i.num := by
  unfold magnitude
  split
  case isTrue hle =>
    have hpos : 0 < i.num / i.den := Nat.div_pos hle hden
    have hexp : (length (i.num / i.den) : ℤ) - 1 = (length (i.num / i.den) - 1 : ℕ) := by
      have := length_pos (i.num / i.den)
      omega
    rw [hexp, zpow_natCast]
    exact_mod_cast (Nat.mul_le_mul_right _ (pow_length_pred_le hpos)).trans
      (Nat.div_mul_le_self _ _)
  case isFalse hlt =>
    have hpow : i.den - 1 < 10 ^ length ((i.den - 1) / i.num) * i.num :=
      (Nat.div_lt_iff_lt_mul hnum).1 (lt_pow_length _)
    have hle : (i.den : ℚ) ≤ 10 ^ length ((i.den - 1) / i.num) * i.num := by
      exact_mod_cast (by omega : i.den ≤ 10 ^ length ((i.den - 1) / i.num) * i.num)
    rw [sub_sub_cancel_left, zpow_neg, zpow_natCast, inv_mul_le_iff₀ (by positivity)]
    exact hle

/-- Seventeen digits are enough for an interval that is not too narrow for its number. -/
theorem exists_search_maxDigits (hnum : 0 < i.num) (hden : 0 < i.den)
    (hbelow : i.num < 2 * i.below * 10 ^ 16) (habove : i.num < 2 * i.above * 10 ^ 16) :
    ∃ d, i.search 1 maxDigits = some d := by
  have hgrid : (i.den : ℚ) * 10 ^ (i.magnitude - 17) * 10 ^ 16 ≤ i.num := by
    have hexp : (10 : ℚ) ^ (i.magnitude - 17) * 10 ^ 16 = 10 ^ (i.magnitude - 1) := by
      rw [← zpow_natCast, ← zpow_add₀ (by norm_num)]
      congr 1
      omega
    rw [mul_assoc, hexp, mul_comm]
    exact pow_magnitude_le hnum hden
  -- the same for either side of the interval
  have hside : ∀ side : ℕ, i.num < 2 * side * 10 ^ 16 →
      i.den * 10 ^ (i.magnitude - 17).toNat < 2 * (side * 10 ^ (-(i.magnitude - 17)).toNat) := by
    intro side hwide
    have hwide' : (i.num : ℚ) < 2 * side * 10 ^ 16 := by exact_mod_cast hwide
    have hlt : (i.den : ℚ) * 10 ^ (i.magnitude - 17) < 2 * side := by linarith
    have hscaled := mul_lt_mul_of_pos_right hlt
      (by positivity : (0 : ℚ) < 10 ^ (-(i.magnitude - 17)).toNat)
    rw [mul_assoc, zpow_mul_pow_toNat_neg (by norm_num), mul_assoc] at hscaled
    exact_mod_cast hscaled
  refine exists_search (by decide : 1 ≤ 17) (by decide) ?_
  exact exists_neighbour? (rescale_den_pos hden _) (hside _ hbelow) (hside _ habove)

/-! ## The interval of a binary number -/

theorem quotient_ofBinary (a : ℚ) (q : ℤ) :
    a * 2 ^ q.toNat / (4 * 2 ^ (-q).toNat) = a / 4 * 2 ^ q := by
  have hpow := zpow_mul_pow_toNat_neg (b := 2) (by norm_num) q
  have hdown : (2 : ℚ) ^ (-q).toNat ≠ 0 := by positivity
  rw [← hpow, ← mul_assoc, mul_div_mul_right _ _ hdown, div_mul_eq_mul_div]

theorem lower_ofBinary (m : ℕ) (q : ℤ) (least : Bool) :
    (ofBinary m q least).lower = (m - if least then 1 / 4 else 1 / 2) * 2 ^ q := by
  simp only [lower, ofBinary, Nat.pow_eq, Nat.cast_mul, Nat.cast_pow, Nat.cast_ofNat]
  rw [← sub_mul, quotient_ofBinary]
  congr 1
  split
  · push_cast
    ring
  · push_cast
    ring

theorem upper_ofBinary (m : ℕ) (q : ℤ) (least : Bool) :
    (ofBinary m q least).upper = (m + 1 / 2) * 2 ^ q := by
  simp only [upper, ofBinary, Nat.pow_eq, Nat.cast_mul, Nat.cast_pow, Nat.cast_ofNat]
  rw [← add_mul, quotient_ofBinary]
  congr 1
  ring

theorem sub_half_le_lower_ofBinary (m : ℕ) (q : ℤ) (least : Bool) :
    ((m : ℚ) - 1 / 2) * 2 ^ q ≤ (ofBinary m q least).lower := by
  rw [lower_ofBinary]
  gcongr
  split <;> norm_num

theorem ofBinary_den_pos (m : ℕ) (q : ℤ) (least : Bool) : 0 < (ofBinary m q least).den :=
  Nat.mul_pos (by decide) (Nat.pow_pos (by decide))

theorem ofBinary_open {m : ℕ} (hodd : m % 2 ≠ 0) (q : ℤ) (least : Bool) :
    (ofBinary m q least).closed = false := by
  simpa [ofBinary] using hodd

end Interval

/-! ## Double-precision numbers -/

/-- The significand and exponent of a positive double-precision number. Only the numbers of the
least exponent have fewer than fifty-three bits. -/
structure IsDouble (m : ℕ) (q : ℤ) (leastInBinade : Bool) : Prop where
  pos : 0 < m
  lt : m < 2 ^ 53
  exponent_ge : -1074 ≤ q
  normal : -1074 < q → 2 ^ 52 ≤ m
  least_iff : leastInBinade = true ↔ m = 2 ^ 52

namespace IsDouble

variable {m m' : ℕ} {q q' : ℤ} {least least' : Bool}

theorem contains_shortest (h : IsDouble m q least) :
    (Interval.ofBinary m q least).Contains (shortest m q least).value := by
  have hup : 0 < Nat.pow 2 q.toNat := Nat.pow_pos (by decide)
  have hm := h.lt
  have hnum : 0 < (Interval.ofBinary m q least).num :=
    Nat.mul_pos (Nat.mul_pos (by decide) h.pos) hup
  have habove : (Interval.ofBinary m q least).num <
      2 * (Interval.ofBinary m q least).above * 10 ^ 16 := by
    simp only [Interval.ofBinary]
    nlinarith
  have hbelow : (Interval.ofBinary m q least).num <
      2 * (Interval.ofBinary m q least).below * 10 ^ 16 := by
    simp only [Interval.ofBinary]
    by_cases hleast : least = true
    · -- half the room below, but for one significand only
      rw [h.least_iff.1 hleast, if_pos hleast]
      omega
    · rw [if_neg hleast]
      nlinarith
  obtain ⟨d, hd⟩ := Interval.exists_search_maxDigits hnum
    (Interval.ofBinary_den_pos m q least) hbelow habove
  rw [shortest, hd]
  exact Interval.contains_of_search (Interval.ofBinary_den_pos m q least) hd

theorem value_shortest_pos (h : IsDouble m q least) : 0 < (shortest m q least).value := by
  have hm : (1 : ℚ) ≤ m := by exact_mod_cast h.pos
  have hhalf : (0 : ℚ) < (m - 1 / 2) * 2 ^ q := mul_pos (by linarith) (by positivity)
  exact hhalf.trans_le ((Interval.sub_half_le_lower_ofBinary m q least).trans
    h.contains_shortest.lower_le)

/-- Where the next exponent is greater, the end is the power of two at which the binade ends. -/
theorem exists_le_lower (h' : IsDouble m' q' least') (hm : m < 2 ^ 53) (hq : -1074 ≤ q)
    (hlt : q < q' ∨ q = q' ∧ m < m') :
    ∃ n : ℕ, m < n ∧ (m' % 2 = 0 → n % 2 = 0) ∧
      ((n : ℚ) - 1 / 2) * 2 ^ q ≤ (Interval.ofBinary m' q' least').lower := by
  obtain hlt | ⟨rfl, hlt⟩ := hlt
  · refine ⟨2 ^ 53, hm, fun _ => by decide, ?_⟩
    have hbinade : (2 : ℚ) ^ q * 2 ≤ 2 ^ q' := by
      rw [← zpow_add_one₀ (by norm_num)]
      exact zpow_le_zpow_right₀ (by norm_num) hlt
    have hnormal : 2 ^ 52 ≤ m' := h'.normal (by omega)
    have hquarter : (2 ^ 52 - 1 / 4 : ℚ) ≤ m' - if least' then 1 / 4 else 1 / 2 := by
      split
      case isTrue =>
        have hcast : (2 ^ 52 : ℚ) ≤ m' := by exact_mod_cast hnormal
        linarith
      case isFalse hleast =>
        have hne : m' ≠ 2 ^ 52 := fun hm' => hleast (h'.least_iff.2 hm')
        have hcast : (2 ^ 52 + 1 : ℚ) ≤ m' := by
          exact_mod_cast (by omega : 2 ^ 52 + 1 ≤ m')
        linarith
    calc (((2 ^ 53 : ℕ) : ℚ) - 1 / 2) * 2 ^ q
        = (2 ^ 52 - 1 / 4) * (2 ^ q * 2) := by push_cast; ring
      _ ≤ (2 ^ 52 - 1 / 4) * 2 ^ q' := by gcongr
      _ ≤ (m' - if least' then 1 / 4 else 1 / 2) * 2 ^ q' := by gcongr
      _ = (Interval.ofBinary m' q' least').lower := (Interval.lower_ofBinary m' q' least').symm
  · exact ⟨m', hlt, id, Interval.sub_half_le_lower_ofBinary m' q least'⟩

theorem not_contains_of_lt (h : IsDouble m q least) (h' : IsDouble m' q' least')
    (hlt : q < q' ∨ q = q' ∧ m < m') {x : ℚ} (hx : (Interval.ofBinary m q least).Contains x) :
    ¬ (Interval.ofBinary m' q' least').Contains x := by
  intro hx'
  obtain ⟨n, hmn, heven, hn⟩ := h'.exists_le_lower h.lt h.exponent_ge hlt
  have hpow : (0 : ℚ) < 2 ^ q := by positivity
  have hupper := hx.le_upper
  have hlower := hn.trans hx'.lower_le
  rw [Interval.upper_ofBinary] at hupper
  have hle : n = m + 1 := by
    have hcast : (n : ℚ) - 1 / 2 ≤ m + 1 / 2 := le_of_mul_le_mul_right (hlower.trans hupper) hpow
    have : n ≤ m + 1 := by exact_mod_cast (by linarith : (n : ℚ) ≤ m + 1)
    omega
  -- the intervals touch, but one of the two is without its ends
  have hends : ((n : ℚ) - 1 / 2) * 2 ^ q = (m + 1 / 2) * 2 ^ q := by
    rw [hle]
    push_cast
    ring
  by_cases hodd : m % 2 = 0
  · have hodd' : m' % 2 ≠ 0 := fun h0 => by
      have := heven h0
      omega
    have hlower' := (hx'.inside_of_open (Interval.ofBinary_open hodd' q' least')).1
    linarith
  · have hupper' := (hx.inside_of_open (Interval.ofBinary_open hodd q least)).2
    rw [Interval.upper_ofBinary] at hupper'
    linarith

/-- No number rounds to two double-precision numbers. -/
theorem eq_of_contains (h : IsDouble m q least) (h' : IsDouble m' q' least') {x : ℚ}
    (hx : (Interval.ofBinary m q least).Contains x)
    (hx' : (Interval.ofBinary m' q' least').Contains x) : m = m' ∧ q = q' ∧ least = least' := by
  have hnot := h.not_contains_of_lt h'
  have hnot' := h'.not_contains_of_lt h
  have heq : q = q' ∧ m = m' := by
    by_contra hne
    have hlt : (q < q' ∨ q = q' ∧ m < m') ∨ q' < q ∨ q' = q ∧ m' < m := by omega
    obtain hlt | hlt := hlt
    · exact hnot hlt hx hx'
    · exact hnot' hlt hx' hx
  obtain ⟨rfl, rfl⟩ := heq
  exact ⟨rfl, rfl, Bool.eq_iff_iff.2 (h.least_iff.trans h'.least_iff.symm)⟩

end IsDouble

end VectorEditor.Decimal
