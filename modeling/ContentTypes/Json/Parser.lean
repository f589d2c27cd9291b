import ContentTypes.Json.Token

/-!
# Reading JSON

`Json.parse?` reads a text as one JSON value. The tokens are taken one at a time by `State.step?`,
which keeps the arrays and objects that are still open on a stack of frames; so neither the length nor
the depth of a text is bounded, and what a token may do depends on the state alone.
-/

namespace ContentTypes.Json

/-- An array or object that is still open; what it holds so far is in reverse. -/
inductive Frame where
  | array (done : List Json)
  /-- An object that waits for the value of `key`. -/
  | object (done : List (Text × Json)) (key : Text)

/-- What has been read and what may come next. -/
inductive State where
  /-- A value has to come. -/
  | value (stack : List Frame)
  /-- An array was opened: a value or the end of the array. -/
  | firstElement (stack : List Frame)
  /-- An object was opened: a key or the end of the object. -/
  | firstMember (stack : List Frame)
  /-- A key has to come. -/
  | key (stack : List Frame) (done : List (Text × Json))
  /-- A colon has to come. -/
  | colon (stack : List Frame) (done : List (Text × Json)) (key : Text)
  /-- A value is complete: the frame around it goes on or ends. -/
  | complete (stack : List Frame) (v : Json)

namespace State

def begin? (stack : List Frame) : Token → Option State
  | .null => some (.complete stack .null)
  | .bool b => some (.complete stack (.bool b))
  | .num literal => some (.complete stack (.num literal))
  | .str s => some (.complete stack (.str s))
  | .openBracket => some (.firstElement stack)
  | .openBrace => some (.firstMember stack)
  | _ => none

def step? : State → Token → Option State
  | .value stack, t => begin? stack t
  | .firstElement stack, .closeBracket => some (.complete stack (.arr []))
  | .firstElement stack, t => begin? (.array [] :: stack) t
  | .firstMember stack, .closeBrace => some (.complete stack (.obj []))
  | .firstMember stack, .str k => some (.colon stack [] k)
  | .key stack done, .str k => some (.colon stack done k)
  | .colon stack done k, .colon => some (.value (.object done k :: stack))
  | .complete (.array done :: stack) v, .comma => some (.value (.array (v :: done) :: stack))
  | .complete (.array done :: stack) v, .closeBracket =>
    some (.complete stack (.arr (v :: done).reverse))
  | .complete (.object done k :: stack) v, .comma => some (.key stack ((k, v) :: done))
  | .complete (.object done k :: stack) v, .closeBrace =>
    some (.complete stack (.obj ((k, v) :: done).reverse))
  | _, _ => none

/-- The value read, if nothing is open. -/
def result? : State → Option Json
  | .complete [] v => some v
  | _ => none

end State

/-- The value that a list of tokens spells. -/
def ofTokens? (ts : List Token) : Option Json := do
  (← ts.foldlM State.step? (.value [])).result?

/-- Reads a text as one JSON value. -/
def parse? (s : String) : Option Json := do ofTokens? (← tokens? s.toList)

end ContentTypes.Json
