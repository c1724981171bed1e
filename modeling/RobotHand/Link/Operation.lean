import RobotHand.Link.Client

/-! The operations of a client as data, and sequences of them. -/
namespace RobotHand.Client

inductive Operation
  | setAddress (address : String)
  | sendPositions (commands : List Servo.Command)
  | status
  | sendLimits (limits : Json)

/-- Performs an operation; the result holds the report if the status was asked for. -/
def perform (c : Client) : Operation → Dialogue (Client × Except LinkFailure (Option Json))
  | .setAddress address => .done ({ c with address }, .ok none)
  | .sendPositions commands => return (c, (← c.sendPositions commands).map fun _ => none)
  | .status => return (c, (← c.status).map some)
  | .sendLimits limits => return (c, (← c.sendLimits limits).map fun _ => none)

structure Entry where
  operation : Operation
  calls : List Call
  result : Except LinkFailure (Option Json)

/-- Performs operations in order, whether or not they fail, against outcomes in order; the idle one
stands in when none is left. -/
def session (idle : Outcome) : Client → List Operation → List Outcome → List Entry
  | _, [], _ => []
  | c, operation :: operations, script =>
    let run := (c.perform operation).run idle script
    ⟨operation, run.calls, run.value.2⟩ :: session idle run.value.1 operations run.rest

end RobotHand.Client
