import RobotHand.Document.Record
import RobotHand.Document.Scalar
import RobotHand.Servo.Basic

/-! Servos and commands in documents. -/
namespace RobotHand.Servo

open Document

def Definition.check : Json → Checked Definition :=
  record fun fields =>
    .ofChecked
      <$> required { primary := "id" } (fun v => (integer v).andThen checkId) fields
      <*> required { primary := "name" } text fields
      <*> optional { primary := "max_value" } ⟨defaultMaximum, by decide⟩
        (fun v => (integer v).andThen checkMaximum) fields

def Definition.read : String → Checked Definition := Document.read check

def Command.check : Json → Checked Command :=
  record fun fields =>
    .ofChecked
      <$> required { primary := "id" } (fun v => (integer v).andThen checkId) fields
      <*> required { primary := "position" } integer fields

def Command.read : String → Checked Command := Document.read check

def Command.json (c : Command) : Json := .object [("id", .int c.id), ("position", .int c.position)]

end RobotHand.Servo
