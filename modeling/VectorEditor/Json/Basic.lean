import VectorEditor.Decimal.Text

/-!
# JSON documents

A document as it is written: the members of an object stand in their order, with repetitions, and
a number is kept as its literal.
-/

namespace VectorEditor

/-- A string of a document. An escape may name half of a surrogate pair without the other half;
such a string is no text. -/
inductive JsonString where
  | text (s : String)
  | broken
deriving Repr, DecidableEq

inductive Json where
  | null
  | bool (b : Bool)
  | number (l : Decimal.Literal)
  | string (s : JsonString)
  | array (items : List Json)
  | object (members : List (JsonString × Json))
deriving Repr

end VectorEditor
