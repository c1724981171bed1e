import RobotHand.Hand.Point
import RobotHand.Number.Binary64

/-! Tracked hand landmarks, and the frames that hold one hand each. -/
namespace RobotHand

/-- A tracked point of a hand: where it is drawn, and where it is in the world, in metres. -/
structure Landmark where
  screen : Point
  world : Point
  name : Option String
  deriving Repr, Inhabited

/-- The landmarks of one moment, or `none` while no hand is visible. -/
abbrev Frame := Option (List Landmark)

namespace Landmark

/-- The landmarks of a hand, from the wrist to the tip of the little finger. -/
def count : Nat := 21

end Landmark

/-- The landmark under a number, which must be a whole number below the count of landmarks. -/
def findLandmark? (id : Float) (landmarks : List Landmark) : Option Landmark :=
  match (Binary64.ofFloat id).toInt? with
  | some (.ofNat n) => if n < Landmark.count then landmarks[n]? else none
  | _ => none

end RobotHand
