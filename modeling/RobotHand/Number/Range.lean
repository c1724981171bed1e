import RobotHand.Number.Breakdown

/-! Ranges of numbers, over floating point or any other arithmetic. -/
namespace RobotHand

variable {α : Type} [LE α] [DecidableLE α]

/-- Maps an input range linearly onto an output range; a value at or beyond a bound of the input
gives the matching bound of the output. -/
def interpolate [Add α] [Sub α] [Mul α] [Div α] [BEq α] [OfNat α 0]
    (value inMin inMax outMin outMax : α) : Except Breakdown α :=
  if value ≤ inMin then .ok outMin
  else if inMax ≤ value then .ok outMax
  else if inMax - inMin == 0 then .error .emptyRange
  else .ok (outMin + (value - inMin) / (inMax - inMin) * (outMax - outMin))

/-- The least upper bound wins: where the bounds cross, the result is the upper one. -/
def clamp (value low high : α) : α :=
  let raised := if low ≤ value then value else low
  if raised ≤ high then raised else high

end RobotHand
