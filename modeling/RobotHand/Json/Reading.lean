import RobotHand.Json.Token

/-! JSON values assembled from tokens, one token at a time. -/
namespace RobotHand.Json

/-- An array or object part way through, the latest part first; an object also holds the name of the
field whose value is being read. -/
inductive Container
  | array (items : List Json)
  | object (fields : List (String × Json)) (name : String)
  deriving Repr

/-- A value part way through, with everything that is open around it, the innermost first. -/
inductive Assembly
  | wantValue (stack : List Container)
  /-- A first item or the end of an array must follow. -/
  | wantItem (stack : List Container)
  /-- A first field or the end of an object must follow. -/
  | wantField (stack : List Container)
  /-- A field must follow the fields before it. -/
  | wantName (fields : List (String × Json)) (stack : List Container)
  | wantColon (fields : List (String × Json)) (name : String) (stack : List Container)
  /-- A value is complete. -/
  | complete (stack : List Container) (value : Json)
  deriving Repr

namespace Assembly

def start : Assembly := .wantValue []

def value (stack : List Container) : Token → Option Assembly
  | .text s => some (.complete stack (.text s))
  | .scalar v => some (.complete stack v)
  | .openArray => some (.wantItem stack)
  | .openObject => some (.wantField stack)
  | _ => none

def step (s : Assembly) (t : Token) : Option Assembly :=
  match s, t with
  | .wantValue stack, t => value stack t
  | .wantItem stack, .closeArray => some (.complete stack (.array []))
  | .wantItem stack, t => value (.array [] :: stack) t
  | .wantField stack, .closeObject => some (.complete stack (.object []))
  | .wantField stack, .text name => some (.wantColon [] name stack)
  | .wantName fields stack, .text name => some (.wantColon fields name stack)
  | .wantColon fields name stack, .colon => some (.wantValue (.object fields name :: stack))
  | .complete (.array items :: stack) v, .comma => some (.wantValue (.array (v :: items) :: stack))
  | .complete (.array items :: stack) v, .closeArray =>
    some (.complete stack (.array (v :: items).reverse))
  | .complete (.object fields name :: stack) v, .comma =>
    some (.wantName ((name, v) :: fields) stack)
  | .complete (.object fields name :: stack) v, .closeObject =>
    some (.complete stack (.object ((name, v) :: fields).reverse))
  | _, _ => none

def depth : Assembly → Nat
  | .wantValue stack | .complete stack _ => stack.length
  | .wantItem stack | .wantField stack | .wantName _ stack | .wantColon _ _ stack =>
    stack.length + 1

/-- Reads one token and refuses to open more than a limit. -/
def stepWithin (limit : Nat) (s : Assembly) (t : Token) : Option Assembly := do
  let next ← s.step t
  if limit < next.depth then none else some next

def finish : Assembly → Option Json
  | .complete [] v => some v
  | _ => none

end Assembly

def depthLimit : Nat := 200

def readWithin? (limit : Nat) (s : String) : Option Json := do
  let ts ← Token.scan? s.toList
  (← ts.foldlM (Assembly.stepWithin limit) Assembly.start).finish

def read? (s : String) : Option Json := readWithin? depthLimit s

end RobotHand.Json
