import RobotHand.Formula.Position
import RobotHand.Servo.Basic
import RobotHand.Servo.Identifier

/-! Settings: where the robot is, how often and how far servos move, and the formula and the maximum
of each servo. -/
namespace RobotHand

inductive TrackedHand
  | left
  | right
  | both
  deriving DecidableEq, Repr

/-- Formulas and maxima are kept under texts, which need not be servo identifiers. -/
structure Settings where
  /-- The robot's address on the network; empty while no robot is known. -/
  address : String := ""
  /-- A position is sent once it has moved by more than this. -/
  threshold : Float := 3
  /-- Seconds between two rounds of sending. -/
  interval : Float := 0.4
  hand : TrackedHand := .right
  formulas : Table String String := .empty
  maxima : Table String Int :=
    .single (toString Servo.wristRotator) Servo.rotatorMaximum
  threshold_nonneg : 0 ≤ threshold := by decide
  interval_pos : 0 < interval := by decide

namespace Settings

def default : Settings := {}

instance : Inhabited Settings := ⟨default⟩

def formula? (s : Settings) (id : Int) : Except Breakdown (Option String) :=
  return s.formulas.get? (← Integer.write id)

/-- Sets the formula of a servo, unchecked. -/
def setFormula (s : Settings) (id : Int) (formula : String) : Except Breakdown Settings :=
  return { s with formulas := s.formulas.put (← Integer.write id) formula }

/-- Sets the maximum under a text, unchecked. -/
def setMaximum (s : Settings) (key : String) (maximum : Int) : Settings :=
  { s with maxima := s.maxima.put key maximum }

def maximumUnder (s : Settings) (key : String) : Int :=
  (s.maxima.get? key).getD Servo.defaultMaximum

def maximum (s : Settings) (id : Int) : Except Breakdown Int :=
  return s.maximumUnder (← Integer.write id)

def maximaById (s : Settings) : Except Breakdown (Table Int Int) := Servo.byId s.maxima

/-- The known servos with their maxima; the first one that is invalid is reported. -/
def servos (s : Settings) : Except (List Document.Complaint) (List Servo.Definition) :=
  Servo.names.mapM fun (id, name) =>
    (Servo.Definition.of id name (s.maximumUnder (toString id))).toExcept

/-- The formulas that are neither blank nor well formed, each with what is wrong. -/
def invalidFormulas (s : Settings) : List (String × String) :=
  s.formulas.entries.filterMap fun (key, formula) =>
    if isBlankText formula then none else (Formula.errorMessage? formula).map (key, ·)

end Settings
end RobotHand
