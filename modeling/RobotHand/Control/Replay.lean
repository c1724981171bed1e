import RobotHand.Control.Exchange

/-! Recordings played through a control. -/
namespace RobotHand.Control

/-- The commands that each frame of a recording leads to, up to a failure, as if all were sent, and
how a pause of some seconds after each frame ends that. -/
def rehearse (c : Control) (seconds : Float) :
    List Frame → List (List Servo.Command) × Except Fault Unit
  | [] => ([], .ok ())
  | frame :: frames =>
    let seen := c.process frame
    match seen.result with
    | .error e => ([], .error e)
    | .ok _ =>
      let collected := seen.control.collect
      match collected.result with
      | .error e => ([], .error e)
      | .ok commands =>
        match Dialogue.checkPause seconds with
        | .error e => ([commands], .error (.breakdown e))
        | .ok _ =>
          let (later, ending) := collected.control.rehearse seconds frames
          (commands :: later, ending)

/-- Sends what each frame of a recording leads to, with a pause of some seconds after each. -/
def stream (c : Control) (seconds : Float) : List Frame → Dialogue (Turn Unit)
  | [] => .done ⟨c, [], .ok ()⟩
  | frame :: frames =>
    (c.process frame).andThen fun c _ => do
      (← c.send).andThen fun c _ => do
        let pausing : Turn Unit := ⟨c, [], (← Dialogue.pause seconds).mapError .breakdown⟩
        pausing.andThen fun c _ => c.stream seconds frames

end RobotHand.Control
