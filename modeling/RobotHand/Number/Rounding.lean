/-! Quotients rounded to integers. -/
namespace RobotHand

/-- A quotient rounded to the nearest integer, a tie to the even one. -/
def roundDiv (p q : Nat) : Nat :=
  let k := p / q
  let r := p % q
  if 2 * r < q then k else if q < 2 * r then k + 1 else k + k % 2

end RobotHand
