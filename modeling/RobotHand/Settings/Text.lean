import RobotHand.Document.Record
import RobotHand.Document.Scalar
import RobotHand.Json.Printing
import RobotHand.Settings.Basic

/-! Settings as JSON documents. -/
namespace RobotHand

open Document

namespace TrackedHand

def name : TrackedHand → String
  | left => "left"
  | right => "right"
  | both => "both"

def ofName? (s : String) : Option TrackedHand :=
  [left, right, both].find? fun h => h.name = s

def check : Json → Checked TrackedHand
  | .text s =>
    match ofName? s with
    | some h => .ok h
    | none => .complain .notChoice
  | _ => .complain .notChoice

end TrackedHand

namespace Settings

/-- Settings; what a document lacks has its default. -/
def check : Json → Checked Settings :=
  record fun fields =>
    (fun address threshold interval hand formulas maxima =>
      ⟨address, threshold.1, interval.1, hand, formulas, maxima, threshold.2, interval.2⟩)
      <$> optional { primary := "robotIp", secondary := "robot_ip" } default.address text fields
      <*> optional { primary := "minChangeThreshold", secondary := "min_change_threshold" }
        ⟨default.threshold, default.threshold_nonneg⟩
        (fun v => (real v).andThen (.satisfying (0 ≤ ·) .belowMinimum)) fields
      <*> optional { primary := "sendInterval", secondary := "send_interval" }
        ⟨default.interval, default.interval_pos⟩
        (fun v => (real v).andThen (.satisfying (0 < ·) .notAboveBound)) fields
      <*> optional { primary := "handToTrack", secondary := "hand_to_track" } default.hand
        TrackedHand.check fields
      <*> optional { primary := "formulas" } default.formulas (table text) fields
      <*> optional { primary := "servoMaxValues", secondary := "servo_max_values" } default.maxima
        (table integer) fields

def read : String → Checked Settings := Document.read check

/-- Settings with every field written out. -/
def json (s : Settings) : Json :=
  .object [("robotIp", .text s.address), ("minChangeThreshold", .real s.threshold),
    ("sendInterval", .real s.interval), ("handToTrack", .text s.hand.name),
    ("formulas", .object (s.formulas.entries.map fun (key, f) => (key, .text f))),
    ("servoMaxValues", .object (s.maxima.entries.map fun (key, m) => (key, .int m)))]

def document (s : Settings) : String := s.json.pretty

end Settings
end RobotHand
