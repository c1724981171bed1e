/-! Points of space and the vector operations that formulas measure hands with. -/
namespace RobotHand

/-- A point, or the vector that leads to it from the origin. -/
structure Point where
  x : Float
  y : Float
  z : Float
  deriving Repr, Inhabited, DecidableEq

namespace Point

def sub (a b : Point) : Point := ⟨a.x - b.x, a.y - b.y, a.z - b.z⟩

def divide (a : Point) (length : Float) : Point := ⟨a.x / length, a.y / length, a.z / length⟩

def dot (a b : Point) : Float := a.x * b.x + a.y * b.y + a.z * b.z

def cross (a b : Point) : Point :=
  ⟨a.y * b.z - a.z * b.y, a.z * b.x - a.x * b.z, a.x * b.y - a.y * b.x⟩

/-- The square root of the sum of squares, which may overflow or underflow. -/
def norm (a : Point) : Float := (a.dot a).sqrt

def distance (a b : Point) : Float := (a.sub b).norm

/-- The way a palm that faces the ground is turned. -/
def downward : Point := ⟨0.0, -1.0, 0.0⟩

/-- The angle in degrees between a direction and the normal of the plane through three points;
`none` if the points lie on a line. -/
def planeAngle? (origin a b direction : Point) : Option Float :=
  let normal := (a.sub origin).cross (b.sub origin)
  let length := normal.norm
  if length == 0.0 then none
  else
    let cosine := (normal.divide length).dot direction
    let bounded := if cosine < -1.0 then -1.0 else if 1.0 < cosine then 1.0 else cosine
    some (bounded.acos * (180.0 / 3.141592653589793))

end Point
end RobotHand
