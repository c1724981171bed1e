import RobotHand.Formula.Expr
import RobotHand.Formula.Variable
import RobotHand.Number.Range

/-! The value of an expression tree on a frame. Operands and arguments are evaluated from left to
right, and the first failure is the result. -/
namespace RobotHand.Formula

/-- The landmarks under several numbers; one failure names them all. -/
def landmarksOf (ids : List Float) (frame : Frame) : Except EvalError (List Landmark) :=
  (ids.mapM fun id => landmark id frame).mapError fun _ => .invalidLandmarks ids

namespace Builtin

def apply (f : Builtin) (arguments : List Float) (frame : Frame) : Except EvalError Float :=
  match f, arguments with
  | distance, [_, _] => do
    match ← landmarksOf arguments frame with
    | [a, b] => return a.world.distance b.world
    | _ => .error (.argumentCount distance)
  | rotation, [_, _, _] => do
    match ← landmarksOf arguments frame with
    | [origin, a, b] =>
      match Point.planeAngle? origin.world a.world b.world Point.downward with
      | some angle => return angle
      | none => .error .collinear
    | _ => .error (.argumentCount rotation)
  | map, [value, inMin, inMax, outMin, outMax] =>
    (interpolate value inMin inMax outMin outMax).mapError .breakdown
  | f, _ => .error (.argumentCount f)

end Builtin

def call (name : String) (arguments : List Float) (frame : Frame) : Except EvalError Float :=
  match Builtin.ofName? name with
  | some f => f.apply arguments frame
  | none => .error (.unknownFunction name)

namespace Operator

def apply (op : Operator) (a b : Float) : Except EvalError Float :=
  match op with
  | add => .ok (a + b)
  | subtract => .ok (a - b)
  | multiply => .ok (a * b)
  | divide => if b == 0 then .error .divisionByZero else .ok (a / b)
  | other symbol => .error (.unknownOperator symbol)

end Operator

namespace Expr

/-- What is left of the room for nesting below a node of the given weight. -/
def descend (weight room : Nat) : Except EvalError Nat :=
  if room < weight then .error .tooDeep else .ok (room - weight)

mutual

/-- The value of a tree; nodes weigh one and calls two, and no path may outweigh the room. -/
def evaluate (frame : Frame) (room : Nat) : Expr → Except EvalError Float
  | .number v => .ok v
  | .variable name => variableValue name frame
  | .unary op operand =>
    if op = .subtract then do
      let below ← descend 1 room
      let v ← evaluate frame below operand
      return -v
    else .error (.unknownNode "Unary")
  | .binary op left right => do
    let below ← descend 1 room
    let a ← evaluate frame below left
    let b ← evaluate frame below right
    op.apply a b
  | .call name arguments => do
    let below ← descend 2 room
    let values ← evaluateAll frame below arguments
    Formula.call name values frame
  | .unknown kind => .error (.unknownNode kind)

def evaluateAll (frame : Frame) (room : Nat) : List Expr → Except EvalError (List Float)
  | [] => .ok []
  | e :: es => do
    let v ← evaluate frame room e
    let vs ← evaluateAll frame room es
    return v :: vs

end

end Expr
end RobotHand.Formula
