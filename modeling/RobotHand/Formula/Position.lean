import RobotHand.Formula.Assembly
import RobotHand.Formula.Evaluation

/-! Formulas from text to servo positions. -/
namespace RobotHand.Formula

inductive Failure
  | empty
  | malformed (cause : Malformed)
  | evaluation (cause : EvalError)
  deriving DecidableEq, Repr

namespace Failure

def message : Failure → String
  | empty => "Empty formula"
  | malformed cause => cause.message
  | evaluation cause => cause.message

end Failure

/-- Whether a formula is absent, empty or nothing but blanks. -/
def isBlank : Option String → Bool
  | none => true
  | some s => isBlankText s

/-- The tree of a text, which must not be nested too deeply. -/
def parse (s : String) : Except Malformed Expr := Expr.ofTokensWithin nestingLimit (tokens s)

def compile (formula : Option String) : Except Failure Expr :=
  match formula with
  | none => .error .empty
  | some s => if isBlankText s then .error .empty else (parse s).mapError .malformed

/-- Whether a formula is not blank and obeys the grammar. -/
def validate (formula : Option String) : Bool :=
  !isBlank formula && (parse (formula.getD "")).isOk

def errorMessage? (formula : Option String) : Option String :=
  if isBlank formula then some Failure.empty.message
  else
    match parse (formula.getD "") with
    | .ok _ => none
    | .error e => some e.message

/-- The value of a formula on a frame, before it is bounded and rounded. -/
def value (formula : Option String) (frame : Frame) : Except Failure Float := do
  let e ← compile formula
  (e.evaluate frame nestingLimit).mapError .evaluation

/-- A finite value within bounds, to the nearest integer with halves up. -/
def settle (v : Float) (low high : Int) : Except EvalError Int := do
  if (Binary64.ofFloat v).isFinite then
    let lower ← (floatOfInt low).mapError .breakdown
    let upper ← (floatOfInt high).mapError .breakdown
    (roundHalfUp (clamp v lower upper)).mapError .breakdown
  else .error (.notFinite v)

def position (formula : Option String) (frame : Frame) (low high : Int) : Except Failure Int := do
  let v ← value formula frame
  (settle v low high).mapError .evaluation

end RobotHand.Formula
