/-!
# Shortest decimals

The decimal with the fewest digits that still identifies a binary number among its neighbours, in
exact integer arithmetic. A binary number is `m · 2 ^ q`; the numbers that round to it form an
interval, with the ends in it exactly when `m` is even. On each grid of powers of ten, from coarse
to fine, the two neighbours of the number are tried: the first grid with a neighbour in the
interval wins, and on it the nearer neighbour, the upper one in a tie.
-/

namespace VectorEditor.Decimal

/-- The positive number `significand · 10 ^ exponent`. -/
structure Scientific where
  significand : Nat
  exponent : Int
deriving Repr, DecidableEq

def length (n : Nat) : Nat := (Nat.toDigits 10 n).length

/-- A positive number `num / den` with the distances `below / den` and `above / den` to the ends of
the interval of numbers that round to it. -/
structure Interval where
  num : Nat
  below : Nat
  above : Nat
  den : Nat
  closed : Bool
deriving Repr, DecidableEq

namespace Interval

/-- The interval of `m · 2 ^ q`. Its neighbours are a unit of `m` away, except that the lower one
is half as far below the least significand of a binade. All is scaled by four, so that a quarter
of a unit is a whole number. -/
def ofBinary (m : Nat) (q : Int) (leastInBinade : Bool) : Interval :=
  let up := Nat.pow 2 q.toNat
  { num := 4 * m * up
    below := (if leastInBinade then 1 else 2) * up
    above := 2 * up
    den := 4 * Nat.pow 2 (-q).toNat
    closed := m % 2 == 0 }

/-- The exponent `k` with `10 ^ (k - 1) ≤ num / den < 10 ^ k`. -/
def magnitude (i : Interval) : Int :=
  if i.den ≤ i.num then length (i.num / i.den) else 1 - (length ((i.den - 1) / i.num) : Int)

/-- The interval in units of `10 ^ step`. -/
def rescale (i : Interval) (step : Int) : Interval :=
  let down := Nat.pow 10 (-step).toNat
  { num := i.num * down
    below := i.below * down
    above := i.above * down
    den := i.den * Nat.pow 10 step.toNat
    closed := i.closed }

/-- Whether the whole number `n` lies in the interval. -/
def holds (i : Interval) (n : Nat) : Bool :=
  let x := n * i.den
  if i.closed then i.num ≤ x + i.below && x ≤ i.num + i.above
  else i.num < x + i.below && x < i.num + i.above

/-- The whole number nearest to `num / den` that lies in the interval, if one of the two around
it does. -/
def neighbour? (i : Interval) : Option Nat :=
  let low := i.num / i.den
  let upperIsNearer := i.den ≤ 2 * (i.num % i.den)
  match i.holds low, i.holds (low + 1) with
  | true, true => some (if upperIsNearer then low + 1 else low)
  | true, false => some low
  | false, true => some (low + 1)
  | false, false => none

/-- The shortest decimal in the interval with at least `digits` and fewer than `digits + fuel`
digits. A neighbour that is carried over to the next power of ten gives up its last zero. -/
def search (i : Interval) (digits : Nat) : Nat → Option Scientific
  | 0 => none
  | fuel + 1 =>
    let step := i.magnitude - digits
    match (i.rescale step).neighbour? with
    | some n => some (if n % 10 = 0 then ⟨n / 10, step + 1⟩ else ⟨n, step⟩)
    | none => i.search (digits + 1) fuel

end Interval

/-- The digits that a double-precision number never needs more than. -/
def maxDigits : Nat := 17

/-- The shortest decimal that rounds to `m · 2 ^ q`. -/
def shortest (m : Nat) (q : Int) (leastInBinade : Bool) : Scientific :=
  ((Interval.ofBinary m q leastInBinade).search 1 maxDigits).getD ⟨m, q⟩

end VectorEditor.Decimal
