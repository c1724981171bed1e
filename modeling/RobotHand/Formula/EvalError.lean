import RobotHand.Formula.Malformed
import RobotHand.Number.Decimal

/-! Why a formula has no value. -/
namespace RobotHand.Formula

inductive Builtin
  /-- The distance of two landmarks. -/
  | distance
  /-- The angle of the plane through three landmarks. -/
  | rotation
  /-- A linear map between two ranges. -/
  | map
  deriving DecidableEq, Repr

namespace Builtin

def name : Builtin → String
  | distance => "distance"
  | rotation => "rotationY"
  | map => "map"

def ofName? (s : String) : Option Builtin :=
  [distance, rotation, map].find? fun f => f.name = s

def arity : Builtin → Nat
  | distance => 2
  | rotation => 3
  | map => 5

/-- The arguments by name, where their count alone would not help. -/
def usage : Builtin → String
  | map => ": value, domain_1_min, domain_1_max, domain_2_min, domain_2_max"
  | _ => ""

end Builtin

/-- The first thing that goes wrong while a tree is evaluated. -/
inductive EvalError
  | divisionByZero
  | unknownOperator (symbol : String)
  | unknownNode (kind : String)
  | unknownVariable (name : String)
  | unknownFunction (name : String)
  | argumentCount (function : Builtin)
  /-- No landmark has this number, or no hand is visible. -/
  | invalidLandmark (id : Float) (visible : Bool)
  /-- Among the landmarks of a call one is invalid. -/
  | invalidLandmarks (ids : List Float)
  | collinear
  | tooDeep
  /-- The value is an infinity or a NaN. -/
  | notFinite (value : Float)
  /-- Arithmetic failed; this is no error of the formula. -/
  | breakdown (cause : Breakdown)
  deriving DecidableEq, Repr

namespace EvalError

def message : EvalError → String
  | divisionByZero => "Division by zero"
  | unknownOperator symbol => "Unknown operator: " ++ symbol
  | unknownNode kind => "Unknown AST node type: " ++ kind
  | unknownVariable name => "Unknown variable: " ++ name
  | unknownFunction name => "Unknown function: " ++ name
  | argumentCount f =>
    f.name ++ " function requires exactly " ++ toString f.arity ++ " arguments" ++ f.usage
  | invalidLandmark id visible =>
    "Invalid landmark ID: " ++ Decimal.general id ++
      if visible then "" else " (no landmarks available)"
  | invalidLandmarks ids =>
    "Invalid landmark ID(s): " ++ ", ".intercalate (ids.map Decimal.general)
  | collinear => "Landmarks are collinear, cannot compute plane normal"
  | tooDeep => Malformed.tooDeep.message
  | notFinite value => "Formula produced a non-finite value: " ++ Decimal.general value
  | breakdown cause => cause.message

end EvalError
end RobotHand.Formula
