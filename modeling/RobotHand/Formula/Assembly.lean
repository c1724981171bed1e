import RobotHand.Formula.Expr
import RobotHand.Formula.Malformed

/-! Expression trees assembled from tokens, one token at a time. A product binds tighter than a sum,
operators of one level group to the left, and a minus sign takes a single operand. -/
namespace RobotHand.Formula

/-- What waits for its next operand within one pair of parentheses. -/
structure Pending where
  sum : Option (Expr × Operator) := none
  product : Option (Expr × Operator) := none
  minuses : Nat := 0
  deriving Repr

namespace Pending

/-- Joins a waiting left operand, if there is one, to its right operand. -/
def join : Option (Expr × Operator) → Expr → Expr
  | none, e => e
  | some (left, op), e => .binary op left e

/-- The waiting minus signs applied to an operand. -/
def negate : Nat → Expr → Expr
  | 0, e => e
  | n + 1, e => .unary .subtract (negate n e)

/-- Everything that waits, completed by its last operand. -/
def total (p : Pending) (e : Expr) : Expr := join p.sum (join p.product e)

/-- What waits once an operator follows an operand. -/
def operator (p : Pending) (level : Operator.Precedence) (op : Operator) (e : Expr) : Pending :=
  match level with
  | .sum => { sum := some (p.total e, op) }
  | .product => { sum := p.sum, product := some (join p.product e, op) }

end Pending

/-- An open parenthesis: a group, or a call with the arguments before the current one. -/
inductive Bracket
  | group
  | call (name : String) (arguments : List Expr)
  deriving Repr

/-- A formula part way through. The stack holds each open parenthesis with what waits outside of
it, the innermost first. -/
inductive Assembly
  /-- An operand must follow. -/
  | wantOperand (stack : List (Bracket × Pending)) (pending : Pending)
  /-- The parenthesis of a call must follow. -/
  | wantOpening (name : String) (stack : List (Bracket × Pending)) (pending : Pending)
  /-- A first argument or the end of the call must follow. -/
  | wantArgument (name : String) (stack : List (Bracket × Pending)) (pending : Pending)
  /-- An operand is complete. -/
  | wantOperator (stack : List (Bracket × Pending)) (pending : Pending) (value : Expr)
  deriving Repr

namespace Assembly

def start : Assembly := .wantOperand [] {}

/-- An operand without its minus signs is complete. -/
def settle (stack : List (Bracket × Pending)) (p : Pending) (e : Expr) : Assembly :=
  .wantOperator stack { p with minuses := 0 } (Pending.negate p.minuses e)

/-- Reads a token where an operand must start. -/
def operand (stack : List (Bracket × Pending)) (p : Pending) (t : Token) :
    Except Malformed Assembly :=
  match t.kind with
  | .number (some v) => .ok (settle stack p (.number v))
  | .number none => .error (.invalidNumber t.lexeme)
  | .opening => .ok (.wantOperand ((.group, p) :: stack) {})
  | .function name => .ok (.wantOpening name stack p)
  | .variable name => .ok (settle stack p (.variable name))
  | .operator .subtract => .ok (.wantOperand stack { p with minuses := p.minuses + 1 })
  | _ => .error (.unexpectedToken t.lexeme)

/-- Reads a token where a level may end: it must close the innermost parenthesis, or separate
arguments. -/
def close (stack : List (Bracket × Pending)) (e : Expr) (t : Token) : Except Malformed Assembly :=
  match stack, t.kind with
  | [], _ => .error (.unexpectedToken t.lexeme)
  | (.group, outer) :: rest, .closing => .ok (settle rest outer e)
  | (.group, _) :: _, _ => .error .missingClosing
  | (.call name arguments, outer) :: rest, .closing =>
    .ok (settle rest outer (.call name (arguments ++ [e])))
  | (.call name arguments, outer) :: rest, .comma =>
    .ok (.wantOperand ((.call name (arguments ++ [e]), outer) :: rest) {})
  | (.call name _, _) :: _, _ => .error (.missingClosingOf name)

/-- The level at which a token joins operands. -/
def joining? (t : Token) : Option (Operator.Precedence × Operator) :=
  match t.kind with
  | .operator op => op.precedence?.map (·, op)
  | _ => none

def step (s : Assembly) (t : Token) : Except Malformed Assembly :=
  match s with
  | .wantOperand stack p => operand stack p t
  | .wantOpening name stack p =>
    if t.kind = .opening then .ok (.wantArgument name stack p) else .error (.missingOpening name)
  | .wantArgument name stack p =>
    if t.kind = .closing then .ok (settle stack p (.call name []))
    else operand ((.call name [], p) :: stack) {} t
  | .wantOperator stack p e =>
    match joining? t with
    | some (level, op) => .ok (.wantOperand stack (p.operator level op e))
    | none => close stack (p.total e) t

def finish : Assembly → Except Malformed Expr
  | .wantOperand .. => .error .unexpectedEnd
  | .wantOpening name .. => .error (.missingOpening name)
  | .wantArgument name .. => .error (.missingClosingOf name)
  | .wantOperator [] p e => .ok (p.total e)
  | .wantOperator ((.group, _) :: _) _ _ => .error .missingClosing
  | .wantOperator ((.call name _, _) :: _) _ _ => .error (.missingClosingOf name)

def weight : Bracket → Nat
  | .group => 4
  | .call .. => 5

/-- The weight of all open parentheses and waiting minus signs. -/
def depth : Assembly → Nat
  | .wantOperand stack p | .wantOpening _ stack p | .wantArgument _ stack p
  | .wantOperator stack p _ =>
    stack.foldr (fun (b, outer) below => weight b + outer.minuses + below) p.minuses

/-- Reads one token and refuses to go deeper than a limit. -/
def stepWithin (limit : Nat) (s : Assembly) (t : Token) : Except Malformed Assembly := do
  let next ← s.step t
  if limit < next.depth then .error .tooDeep else .ok next

end Assembly

namespace Expr

/-- The tree of a token list, however deep. -/
def ofTokens (ts : List Token) : Except Malformed Expr := do
  (← ts.foldlM Assembly.step Assembly.start).finish

/-- The tree of a token list that never opens more than a limit. -/
def ofTokensWithin (limit : Nat) (ts : List Token) : Except Malformed Expr := do
  (← ts.foldlM (Assembly.stepWithin limit) Assembly.start).finish

end Expr
end RobotHand.Formula
