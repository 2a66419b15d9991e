import VectorEditor.Decimal.Shortest

/-!
# Decimal text of numbers

How numbers stand in messages and scripts: the shortest digits that read back, always positional,
with no point after a whole number. Reading takes the nearest number and refuses what is too large
for one.
-/

namespace VectorEditor.Decimal

def digits (n : Nat) : List Char := Nat.toDigits 10 n

namespace Scientific

/-- The number in positional form: zeros up to the point where the digits end before it, and after
the point where they begin behind it. -/
def positional (d : Scientific) : List Char :=
  let ds := digits d.significand
  let behind := (-d.exponent).toNat
  if behind = 0 then ds ++ List.replicate d.exponent.toNat '0'
  else if behind < ds.length then
    ds.take (ds.length - behind) ++ '.' :: ds.drop (ds.length - behind)
  else '0' :: '.' :: List.replicate (behind - ds.length) '0' ++ ds

end Scientific

/-- The parts of a double-precision number. -/
inductive Parts where
  | nan
  | infinite (negative : Bool)
  | finite (negative : Bool) (m : Nat) (q : Int) (leastInBinade : Bool)
deriving Repr, DecidableEq

/-- Reads the parts off the encoding: a sign bit, eleven bits of exponent and fifty-two of
significand, whose leading one is left out except where the exponent is zero. -/
def Parts.ofBits (bits : UInt64) : Parts :=
  let negative := bits >>> 63 == 1
  let field := (bits >>> 52 &&& 0x7ff).toNat
  let tail := (bits &&& 0xfffffffffffff).toNat
  if field = 0x7ff then (if tail = 0 then .infinite negative else .nan)
  else if field = 0 then .finite negative tail (-1074) false
  else .finite negative (0x10000000000000 + tail) ((field : Int) - 1075) (tail == 0)

def Parts.text : Parts → List Char
  | .nan => ['N', 'a', 'N']
  | .infinite negative => (if negative then ['-'] else []) ++ ['i', 'n', 'f']
  | .finite negative m q least =>
    (if negative then ['-'] else []) ++
      (if m = 0 then ['0'] else (shortest m q least).positional)

/-- A number as it is written in a document: a sign, and `significand · 10 ^ exponent`. The flag
`whole` tells a literal without point and exponent. -/
structure Literal where
  negative : Bool
  significand : Nat
  exponent : Int
  whole : Bool
deriving Repr, DecidableEq

/-- Numbers with a decimal text. -/
class Printable (α : Type) where
  text : α → String

/-- Numbers that are read from decimal literals. -/
class Readable (α : Type) where
  /-- The number nearest to a literal, unless the literal is out of range. -/
  ofLiteral? : Literal → Option α

instance : Printable Float := ⟨fun x => String.ofList (Parts.ofBits x.toBits).text⟩

/-- The double-precision number nearest to `significand · 10 ^ exponent`. A literal whose leading
digit stands left of the 310th place is infinite and one whose leading digit stands right of the
330th place behind the point is zero, so that only moderate powers of ten are formed. -/
def nearest (significand : Nat) (exponent : Int) : Float :=
  let top := length significand + exponent
  if significand = 0 then 0
  else if 310 < top then 1 / 0
  else if top < -330 then 0
  else Float.ofScientific significand (exponent < 0) exponent.natAbs

instance : Readable Float where
  ofLiteral? l :=
    let x := nearest l.significand l.exponent
    if x.isFinite then some (if l.negative then -x else x) else none

end VectorEditor.Decimal
