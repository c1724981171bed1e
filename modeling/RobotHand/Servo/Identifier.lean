import RobotHand.Number.Binary64
import RobotHand.Number.Integer
import RobotHand.Table

/-! Servo identifiers as callers and documents give them. -/
namespace RobotHand.Servo

/-- A number or a text that stands for the identifier of a servo. -/
inductive Reference
  | id (value : Int)
  | real (value : Float)
  | text (value : String)
  deriving DecidableEq, Repr

namespace Reference

/-- The identifier; a fraction is cut off, and a text must be an integer literal. -/
def resolve : Reference → Except Breakdown Int
  | id i => .ok i
  | real x => (Binary64.ofFloat x).truncate
  | text s => Integer.read s

def log : Reference → Except Breakdown Unit
  | id i => discard (Integer.write i)
  | real _ | text _ => .ok ()

theorem log_eq_error_iff {servo : Reference} {b : Breakdown} :
    servo.log = .error b ↔ (∃ i, servo = id i ∧ ¬ Integer.isShort i) ∧ b = .tooLongToWrite := by
  cases servo with
  | id i =>
    rw [log]
    by_cases h : Integer.isShort i
    · rw [Integer.write_of_isShort h]
      exact ⟨nofun, fun ⟨⟨j, hj, hlong⟩, _⟩ => absurd (id.inj hj ▸ h) hlong⟩
    · rw [Integer.write_of_not_isShort h]
      exact ⟨fun hb => ⟨⟨i, rfl, h⟩, (Except.error.inj hb).symm⟩, fun ⟨_, hb⟩ => hb ▸ rfl⟩
  | real x => exact ⟨nofun, nofun⟩
  | text s => exact ⟨nofun, nofun⟩

end Reference

/-- A table with its keys read as identifiers; of equal ones the last value wins. -/
def byId {ν : Type} (t : Table String ν) : Except Breakdown (Table Int ν) :=
  Table.ofList <$> t.entries.mapM fun (key, v) => (Integer.read key).map (·, v)

end RobotHand.Servo
