import VectorEditor.Json.Token

/-!
# Reading JSON

Builds a document from its tokens, one token after the other. The arrays and objects that are not
closed yet are kept in a list, innermost first, so documents may be nested to any depth.
-/

namespace VectorEditor.Json

/-- An array or object that is not closed yet, with the parts before the one that is being read,
last first. -/
inductive Enclosing where
  | array (items : List Json)
  | object (members : List (JsonString × Json)) (key : JsonString)

/-- What has been read, by what may follow. -/
inductive Reading where
  /-- A value follows. -/
  | value (outer : List Enclosing)
  /-- The first value of an array follows, or its end. -/
  | firstItem (outer : List Enclosing)
  /-- The first key of an object follows, or its end. -/
  | firstKey (outer : List Enclosing)
  /-- A further key of an object follows. -/
  | nextKey (members : List (JsonString × Json)) (outer : List Enclosing)
  /-- The colon behind a key follows. -/
  | colon (members : List (JsonString × Json)) (key : JsonString) (outer : List Enclosing)
  /-- A value is complete; a comma or the end of what is around it follows. -/
  | complete (value : Json) (outer : List Enclosing)

namespace Reading

/-- Reads a token where a value may begin. -/
def beginValue (outer : List Enclosing) : Token → Option Reading
  | .null => some (.complete .null outer)
  | .bool b => some (.complete (.bool b) outer)
  | .number l => some (.complete (.number l) outer)
  | .string s => some (.complete (.string s) outer)
  | .openArray => some (.firstItem outer)
  | .openObject => some (.firstKey outer)
  | _ => none

/-- Reads one token. -/
def step (r : Reading) (t : Token) : Option Reading :=
  match r with
  | .value outer => beginValue outer t
  | .firstItem outer =>
    if t = .closeArray then some (.complete (.array []) outer)
    else beginValue (.array [] :: outer) t
  | .firstKey outer =>
    match t with
    | .closeObject => some (.complete (.object []) outer)
    | .string key => some (.colon [] key outer)
    | _ => none
  | .nextKey members outer =>
    match t with
    | .string key => some (.colon members key outer)
    | _ => none
  | .colon members key outer =>
    match t with
    | .colon => some (.value (.object members key :: outer))
    | _ => none
  | .complete _ [] => none
  | .complete v (.array items :: outer) =>
    match t with
    | .comma => some (.value (.array (v :: items) :: outer))
    | .closeArray => some (.complete (.array (v :: items).reverse) outer)
    | _ => none
  | .complete v (.object members key :: outer) =>
    match t with
    | .comma => some (.nextKey ((key, v) :: members) outer)
    | .closeObject => some (.complete (.object ((key, v) :: members).reverse) outer)
    | _ => none

end Reading

/-- The document that tokens make, if they make one. -/
def ofTokens? (ts : List Token) : Option Json :=
  match ts.foldlM Reading.step (.value []) with
  | some (.complete v []) => some v
  | _ => none

/-- The document with the given text, if there is one. -/
def parse? (text : String) : Option Json := do ofTokens? (← tokens text.toList)

end VectorEditor.Json
