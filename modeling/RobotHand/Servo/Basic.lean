import RobotHand.Document.Checked

/-! The servos of the hand, and commands to them. -/
namespace RobotHand.Servo

open Document

def minimum : Int := 0

def defaultMaximum : Int := 1023

/-- The servos in the order in which the hand lists them. -/
def names : List (Int × String) :=
  [(1, "Pink Adductor"), (2, "Pink Flexor"), (3, "Ring Adductor"), (4, "Ring Flexor"),
    (5, "Middle Flexor"), (6, "Index Adductor"), (7, "Index Flexor"), (8, "Thumb Rotator"),
    (9, "Thumb Flexor"), (10, "Wrist Flexor"), (11, "Wrist Rotator")]

/-- The servo that turns the wrist; its position is an angle, which the hand rescales. -/
def wristRotator : Int := 11

def rotatorMaximum : Int := 4095

/-- Identifiers start at one. -/
def checkId : Int → Checked { i : Int // 1 ≤ i } := .satisfying (1 ≤ ·) .belowMinimum

/-- A maximum is not negative. -/
def checkMaximum : Int → Checked { i : Int // 0 ≤ i } := .satisfying (0 ≤ ·) .belowMinimum

structure Definition where
  id : Int
  name : String
  maximum : Int := defaultMaximum
  one_le_id : 1 ≤ id
  maximum_nonneg : 0 ≤ maximum
  deriving DecidableEq, Repr

def Definition.ofChecked (id : { i : Int // 1 ≤ i }) (name : String)
    (maximum : { i : Int // 0 ≤ i }) : Definition :=
  ⟨id.1, name, maximum.1, id.2, maximum.2⟩

def Definition.of (id : Int) (name : String) (maximum : Int) : Checked Definition :=
  (.ofChecked · name ·)
    <$> (checkId id).under (.field "id")
    <*> (checkMaximum maximum).under (.field "max_value")

/-- The position that a servo is to take. -/
structure Command where
  id : Int
  position : Int
  one_le_id : 1 ≤ id
  deriving DecidableEq, Repr

def Command.ofChecked (id : { i : Int // 1 ≤ i }) (position : Int) : Command :=
  ⟨id.1, position, id.2⟩

def Command.of (id position : Int) : Checked Command :=
  (.ofChecked · position) <$> (checkId id).under (.field "id")

end RobotHand.Servo
