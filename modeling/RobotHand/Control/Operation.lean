import RobotHand.Control.Exchange

/-! The operations of a control as data. -/
namespace RobotHand.Control

inductive Operation
  | updateFormula (servo : Servo.Reference) (formula : String)
  | setFormulas (formulas : Table String String)
  | process (frame : Frame)
  | collect
  | send
  | refresh
  | sendLimits (limits : Json)
  | setAddress (address : String)
  | setThreshold (threshold : Float)
  | setInterval (interval : Float)
  | start
  | stop
  | sendLoop (ticks : List Tick)

inductive Answer
  | nothing
  | flag (value : Bool)
  | positions (value : Table Int Int)
  | commands (value : List Servo.Command)
  | status (value : Json)
  | waits (value : List Float)

def perform (c : Control) : Operation → Dialogue (Turn Answer)
  | .updateFormula servo formula => .done ((c.updateFormula servo formula).map .flag)
  | .setFormulas formulas => .done ((c.setFormulas formulas).map fun _ => .nothing)
  | .process frame => .done ((c.process frame).map .positions)
  | .collect => .done (c.collect.map .commands)
  | .send => return (← c.send).map .flag
  | .refresh => return (← c.refresh).map .status
  | .sendLimits limits => return (← c.sendLimits limits).map fun _ => .nothing
  | .setAddress address => .done ((c.setAddress address).map fun _ => .nothing)
  | .setThreshold threshold => .done ((c.setThreshold threshold).map fun _ => .nothing)
  | .setInterval interval => .done ((c.setInterval interval).map fun _ => .nothing)
  | .start => .done (c.start.map fun _ => .nothing)
  | .stop => .done (c.stop.map fun _ => .nothing)
  | .sendLoop ticks => return (← c.sendLoop ticks).map .waits

end RobotHand.Control
