import RobotHand.Formula.EvalError
import RobotHand.Formula.Scan
import RobotHand.Hand.Landmark
import RobotHand.Number.Integer

/-! Variables name a coordinate of a landmark, as `L[4].x` or as `Lx[4]`. -/
namespace RobotHand.Formula

inductive Axis
  | x
  | y
  | z
  deriving DecidableEq, Repr

namespace Axis

def ofChar? (c : Char) : Option Axis :=
  if c = 'x' then some x else if c = 'y' then some y else if c = 'z' then some z else none

def coordinate : Axis → Point → Float
  | x, p => p.x
  | y, p => p.y
  | z, p => p.z

end Axis

/-- The decimal digits of any script at the start of a text, and the rest. -/
def leadingDigits : List Char → List Nat × List Char
  | [] => ([], [])
  | c :: r =>
    match digitValue? c with
    | none => ([], c :: r)
    | some d => (d :: (leadingDigits r).1, (leadingDigits r).2)

/-- The digits and the axis that a variable name holds, in either spelling. -/
def coordinateOf? (name : String) : Option (List Nat × Axis) :=
  match dropFinalNewline name.toList with
  | 'L' :: '[' :: r =>
    match leadingDigits r with
    | (d :: ds, [']', '.', a]) => (Axis.ofChar? a).map (d :: ds, ·)
    | _ => none
  | 'L' :: a :: '[' :: r =>
    match leadingDigits r with
    | (d :: ds, [']']) => (Axis.ofChar? a).map (d :: ds, ·)
    | _ => none
  | _ => none

def landmark (id : Float) (frame : Frame) : Except EvalError Landmark :=
  match frame with
  | none => .error (.invalidLandmark id false)
  | some landmarks =>
    match findLandmark? id landmarks with
    | none => .error (.invalidLandmark id true)
    | some l => .ok l

def variableValue (name : String) (frame : Frame) : Except EvalError Float :=
  match coordinateOf? name with
  | none => .error (.unknownVariable name)
  | some (digits, axis) => do
    let n ← (Integer.ofDigits digits).mapError .breakdown
    let id ← (floatOfInt n).mapError .breakdown
    let l ← landmark id frame
    return axis.coordinate l.world

end RobotHand.Formula
