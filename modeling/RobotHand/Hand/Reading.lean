import RobotHand.Document.Record
import RobotHand.Document.Scalar
import RobotHand.Hand.Landmark

/-! Recorded landmarks in documents. -/
namespace RobotHand

open Document

/-- A landmark; its place in the world is required. -/
def Landmark.check : Json → Checked Landmark :=
  record fun fields =>
    (fun x y z x3 y3 z3 name => ⟨⟨x, y, z⟩, ⟨x3, y3, z3⟩, name⟩)
      <$> optional { primary := "x" } 0 real fields
      <*> optional { primary := "y" } 0 real fields
      <*> optional { primary := "z" } 0 real fields
      <*> required { primary := "x3D", secondary := "x3d" } real fields
      <*> required { primary := "y3D", secondary := "y3d" } real fields
      <*> required { primary := "z3D", secondary := "z3d" } real fields
      <*> optional { primary := "name" } none text? fields

namespace Frame

/-- A list of landmarks, or null while no hand is visible. -/
def check : Json → Checked Frame := nullable (list Landmark.check)

def read : String → Checked Frame := Document.read check

def readAll : String → Checked (List Frame) := Document.read (list check)

end Frame
end RobotHand
