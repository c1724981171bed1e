import RobotHand.Control.Steering

/-! What a control does with the robot: it polls, sends, and keeps track of the connection. -/
namespace RobotHand.Control

/-- Notes whether the robot answers; listeners are told of changes only. -/
def setConnected (c : Control) (connected : Bool) : Turn Unit :=
  if c.connected = connected then ⟨c, [], .ok ()⟩
  else ⟨{ c with connected }, [.connection connected], .ok ()⟩

def ready (c : Control) : Bool := c.client.address ≠ "" && c.connected

def setAddress (c : Control) (address : String) : Turn Unit :=
  { c with client := { c.client with address } }.setConnected false

/-- Sends the positions that have moved; the result tells whether any were sent. -/
def send (c : Control) : Dialogue (Turn Bool) :=
  if c.ready then
    c.collect.andThen fun c commands =>
      if commands.isEmpty then .done ⟨c, [], .ok false⟩
      else do
        match ← c.client.sendPositions commands with
        | .error _ => return (c.setConnected false).map fun _ => false
        | .ok _ => return ⟨c, [.sent c.sent], .ok true⟩
  else .done ⟨c, [], .ok false⟩

/-- Polls the robot; the result is its status, or null if it cannot be reached. -/
def refresh (c : Control) : Dialogue (Turn Json) :=
  if c.client.address = "" then .done ⟨c, [], .ok .null⟩
  else do
    match ← c.client.status with
    | .error (.overwhelmed reason) => return ⟨c, [], .error (.link (.overwhelmed reason))⟩
    | .error _ => return (c.setConnected false).map fun _ => .null
    | .ok report =>
      let now := c.setConnected true
      return ⟨now.control, now.events ++ [.status report], .ok report⟩

def sendLimits (c : Control) (limits : Json) : Dialogue (Turn Unit) :=
  if c.ready then
    return ⟨c, [], (← c.client.sendLimits limits).mapError .link⟩
  else .done ⟨c, [], .error .notConnected⟩

/-- One round of the send loop: when it starts and ends, in seconds, and whether the loop was told
to stop while it waited before it. -/
structure Tick where
  start : Float
  finish : Float
  stopped : Bool := false
  deriving Repr

def pollInterval : Float := 2

/-- The rounds of the send loop after the last poll; the result holds the waits between rounds. -/
def sendRounds (polled : Float) (c : Control) : List Tick → Dialogue (Turn (List Float))
  | [] => .done ⟨c, [], .ok []⟩
  | tick :: ticks =>
    if tick.stopped then .done ⟨c, [], .ok []⟩
    else do
      let overdue := pollInterval ≤ tick.start - polled
      let poll ← if overdue then c.refresh else pure ⟨c, [], .ok .null⟩
      poll.andThen fun c _ => do
        (← c.send).andThen fun c _ => do
          let wait := c.interval - (tick.finish - tick.start)
          match Dialogue.checkPause wait with
          | .error e => return ⟨c, [], .error (.breakdown e)⟩
          | .ok _ => do
            let later ← sendRounds (if overdue then tick.start else polled) c ticks
            return later.map fun waits => if 0 < wait then wait :: waits else waits

def sendLoop (c : Control) (ticks : List Tick) : Dialogue (Turn (List Float)) :=
  c.sendRounds 0 ticks

end RobotHand.Control
