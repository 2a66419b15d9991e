import VectorEditor.Json.Basic

/-!
# Tokens of JSON

Cuts the text of a document into punctuation, words, numbers and strings. Each step takes at least
one character, so the cutting ends.
-/

namespace VectorEditor.Json

/-- A piece of the text of a document. -/
inductive Token where
  | openArray
  | closeArray
  | openObject
  | closeObject
  | comma
  | colon
  | null
  | bool (b : Bool)
  | number (l : Decimal.Literal)
  | string (s : JsonString)
deriving Repr, DecidableEq

/-- Space between tokens. -/
def isBlank (c : Char) : Bool := c == ' ' || c == '\t' || c == '\n' || c == '\r'

/-! ## Numbers -/

/-- The value of a digit, as an addition to the digits before it. -/
def addDigit (n : Nat) (c : Char) : Nat := 10 * n + (c.toNat - '0'.toNat)

/-- The number that digits stand for. -/
def digitsValue (ds : List Char) : Nat := ds.foldl addDigit 0

/-- Cuts off the digits at the beginning. -/
def spanDigits (cs : List Char) : List Char × List Char :=
  (cs.takeWhile Char.isDigit, cs.dropWhile Char.isDigit)

theorem spanDigits_length (cs : List Char) :
    (spanDigits cs).1.length + (spanDigits cs).2.length = cs.length := by
  rw [spanDigits, ← List.length_append, List.takeWhile_append_dropWhile]

/-- Digits at the beginning, at least one. -/
def someDigits (cs : List Char) : Option (List Char × List Char) :=
  match spanDigits cs with
  | ([], _) => none
  | (ds, rest) => some (ds, rest)

/-- The whole part of a number: a zero, or digits that do not begin with one. -/
def wholePart : List Char → Option (List Char × List Char)
  | '0' :: rest => some (['0'], rest)
  | cs => someDigits cs

/-- The digits behind the point; none if there is no point. -/
def fractionPart : List Char → Option (Option (List Char) × List Char)
  | '.' :: rest => (someDigits rest).map fun (ds, rest) => (some ds, rest)
  | cs => some (none, cs)

/-- The digits of an exponent with its sign. -/
def exponentDigits : List Char → Option (Int × List Char)
  | '+' :: rest => (someDigits rest).map fun (ds, rest) => ((digitsValue ds : Int), rest)
  | '-' :: rest => (someDigits rest).map fun (ds, rest) => (-(digitsValue ds : Int), rest)
  | cs => (someDigits cs).map fun (ds, rest) => ((digitsValue ds : Int), rest)

/-- The exponent; none if there is no exponent. -/
def exponentPart : List Char → Option (Option Int × List Char)
  | 'e' :: rest => (exponentDigits rest).map fun (n, rest) => (some n, rest)
  | 'E' :: rest => (exponentDigits rest).map fun (n, rest) => (some n, rest)
  | cs => some (none, cs)

/-- A number without its sign. -/
def unsignedNumber (negative : Bool) (cs : List Char) : Option (Decimal.Literal × List Char) := do
  let (whole, cs) ← wholePart cs
  let (fraction, cs) ← fractionPart cs
  let (exponent, cs) ← exponentPart cs
  let behind := fraction.getD []
  let literal : Decimal.Literal :=
    { negative
      significand := digitsValue (whole ++ behind)
      exponent := exponent.getD 0 - behind.length
      whole := fraction.isNone && exponent.isNone }
  some (literal, cs)

/-- A number at the beginning. -/
def scanNumber : List Char → Option (Decimal.Literal × List Char)
  | '-' :: rest => unsignedNumber true rest
  | cs => unsignedNumber false cs

/-! ## Strings -/

def hexValue? (c : Char) : Option Nat :=
  if c.isDigit then some (c.toNat - '0'.toNat)
  else if 'a' ≤ c ∧ c ≤ 'f' then some (c.toNat - 'a'.toNat + 10)
  else if 'A' ≤ c ∧ c ≤ 'F' then some (c.toNat - 'A'.toNat + 10)
  else none

/-- The unit that four hexadecimal digits stand for. -/
def hexUnit? (a b c d : Char) : Option Nat := do
  let a ← hexValue? a
  let b ← hexValue? b
  let c ← hexValue? c
  let d ← hexValue? d
  some (((a * 16 + b) * 16 + c) * 16 + d)

/-- Whether a unit is the first half of a surrogate pair. -/
def isHighSurrogate (u : Nat) : Bool := 0xD800 ≤ u && u < 0xDC00

/-- Whether a unit is the second half of a surrogate pair. -/
def isLowSurrogate (u : Nat) : Bool := 0xDC00 ≤ u && u < 0xE000

/-- The character of a surrogate pair. -/
def pairChar (high low : Nat) : Char :=
  Char.ofNat (0x10000 + (high - 0xD800) * 0x400 + (low - 0xDC00))

/-- The character of an escape by a single letter. -/
def escapeChar? : Char → Option Char
  | '"' => some '"'
  | '\\' => some '\\'
  | '/' => some '/'
  | 'b' => some '\x08'
  | 'f' => some '\x0c'
  | 'n' => some '\n'
  | 'r' => some '\r'
  | 't' => some '\t'
  | _ => none

/-- A piece of a string: a character, or half of a surrogate pair. -/
inductive StringPart where
  | char (c : Char)
  | unit (u : Nat)
deriving Repr, DecidableEq

/-- The parts of a string up to its closing quote, and what follows. `parts` are those before,
last first. -/
def stringParts (parts : List StringPart) : List Char → Option (List StringPart × List Char)
  | [] => none
  | '"' :: rest => some (parts.reverse, rest)
  | '\\' :: 'u' :: a :: b :: c :: d :: rest =>
    match hexUnit? a b c d with
    | none => none
    | some u =>
      if isHighSurrogate u || isLowSurrogate u then stringParts (.unit u :: parts) rest
      else stringParts (.char (Char.ofNat u) :: parts) rest
  | '\\' :: e :: rest =>
    match escapeChar? e with
    | none => none
    | some c => stringParts (.char c :: parts) rest
  | c :: rest => if c.toNat < 0x20 || c == '\\' then none else stringParts (.char c :: parts) rest

/-- The text that the parts of a string make, with `before` in front of it, last character first.
Only a high surrogate directly before a low one makes a character. -/
def joinParts (before : List Char) : List StringPart → JsonString
  | [] => .text (String.ofList before.reverse)
  | .char c :: rest => joinParts (c :: before) rest
  | .unit u :: .unit v :: rest =>
    if isHighSurrogate u && isLowSurrogate v then joinParts (pairChar u v :: before) rest
    else .broken
  | .unit _ :: _ => .broken

/-! ## Every step takes a character -/

theorem someDigits_length {cs : List Char} {out : List Char × List Char}
    (h : someDigits cs = some out) : out.2.length < cs.length := by
  have total := spanDigits_length cs
  unfold someDigits at h
  split at h
  · simp at h
  · rename_i ds rest hne heq
    obtain rfl := Option.some.inj h
    have : 0 < ds.length := List.length_pos_iff.2 hne
    simp only [heq] at total
    show rest.length < cs.length
    omega

theorem wholePart_length {cs : List Char} {out : List Char × List Char}
    (h : wholePart cs = some out) : out.2.length < cs.length := by
  unfold wholePart at h
  split at h
  · obtain rfl := Option.some.inj h
    simp
  · exact someDigits_length h

theorem fractionPart_length {cs : List Char} {out : Option (List Char) × List Char}
    (h : fractionPart cs = some out) : out.2.length ≤ cs.length := by
  unfold fractionPart at h
  split at h
  · obtain ⟨x, hx, rfl⟩ := Option.map_eq_some_iff.1 h
    have := someDigits_length hx
    simp only [List.length_cons]
    omega
  · obtain rfl := Option.some.inj h
    exact Nat.le_refl _

theorem exponentDigits_length {cs : List Char} {out : Int × List Char}
    (h : exponentDigits cs = some out) : out.2.length < cs.length := by
  unfold exponentDigits at h
  split at h <;>
  · obtain ⟨x, hx, rfl⟩ := Option.map_eq_some_iff.1 h
    have := someDigits_length hx
    simp only [List.length_cons]
    omega

theorem exponentPart_length {cs : List Char} {out : Option Int × List Char}
    (h : exponentPart cs = some out) : out.2.length ≤ cs.length := by
  unfold exponentPart at h
  split at h
  · obtain ⟨x, hx, rfl⟩ := Option.map_eq_some_iff.1 h
    have := exponentDigits_length hx
    simp only [List.length_cons]
    omega
  · obtain ⟨x, hx, rfl⟩ := Option.map_eq_some_iff.1 h
    have := exponentDigits_length hx
    simp only [List.length_cons]
    omega
  · obtain rfl := Option.some.inj h
    exact Nat.le_refl _

theorem unsignedNumber_length {negative : Bool} {cs : List Char}
    {out : Decimal.Literal × List Char} (h : unsignedNumber negative cs = some out) :
    out.2.length < cs.length := by
  simp only [unsignedNumber, Option.bind_eq_bind, Option.bind_eq_some_iff] at h
  obtain ⟨w, hw, f, hf, e, he, hout⟩ := h
  have h1 := wholePart_length hw
  have h2 := fractionPart_length hf
  have h3 := exponentPart_length he
  obtain rfl := Option.some.inj hout
  show e.2.length < cs.length
  omega

theorem scanNumber_length {cs : List Char} {out : Decimal.Literal × List Char}
    (h : scanNumber cs = some out) : out.2.length < cs.length := by
  unfold scanNumber at h
  split at h
  · have := unsignedNumber_length h
    simp only [List.length_cons]
    omega
  · exact unsignedNumber_length h

theorem stringParts_length {parts : List StringPart} {cs : List Char}
    {out : List StringPart × List Char} (h : stringParts parts cs = some out) :
    out.2.length < cs.length := by
  fun_induction stringParts parts cs generalizing out <;> grind

/-! ## Cutting a text -/

/-- The token at the beginning of a text that does not begin with space, and what follows. -/
def next? : List Char → Option (Token × List Char)
  | '[' :: rest => some (.openArray, rest)
  | ']' :: rest => some (.closeArray, rest)
  | '\x7b' :: rest => some (.openObject, rest)
  | '\x7d' :: rest => some (.closeObject, rest)
  | ',' :: rest => some (.comma, rest)
  | ':' :: rest => some (.colon, rest)
  | 'n' :: 'u' :: 'l' :: 'l' :: rest => some (.null, rest)
  | 't' :: 'r' :: 'u' :: 'e' :: rest => some (.bool true, rest)
  | 'f' :: 'a' :: 'l' :: 's' :: 'e' :: rest => some (.bool false, rest)
  | '"' :: rest =>
    (stringParts [] rest).map fun (parts, rest) => (.string (joinParts [] parts), rest)
  | cs => (scanNumber cs).map fun (l, rest) => (.number l, rest)

theorem next?_length {cs : List Char} {out : Token × List Char} (h : next? cs = some out) :
    out.2.length < cs.length := by
  unfold next? at h
  split at h
  case h_10 =>
    obtain ⟨x, hx, rfl⟩ := Option.map_eq_some_iff.1 h
    have := stringParts_length hx
    grind
  case h_11 =>
    obtain ⟨x, hx, rfl⟩ := Option.map_eq_some_iff.1 h
    exact scanNumber_length hx
  all_goals grind

/-- The tokens of a text, behind those of `before`, last first. -/
def tokensFrom (before : List Token) (cs : List Char) : Option (List Token) :=
  match cs with
  | [] => some before.reverse
  | c :: rest =>
    if isBlank c then tokensFrom before rest
    else
      match _h : next? (c :: rest) with
      | none => none
      | some (t, rest') => tokensFrom (t :: before) rest'
termination_by cs.length
decreasing_by
  · simp
  · exact next?_length ‹_›

/-- The tokens of a text, unless some part of it is none. -/
def tokens (cs : List Char) : Option (List Token) := tokensFrom [] cs

end VectorEditor.Json
