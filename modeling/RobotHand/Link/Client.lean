import RobotHand.Link.Dialogue
import RobotHand.Servo.Reading

/-! The robot's servo interface. -/
namespace RobotHand

/-- Where the robot is, and how many seconds to wait for it. -/
structure Client where
  /-- A host, with `:` and a number if not 80; empty while no robot is known. -/
  address : String := ""
  timeout : Float := 2
  deriving Repr, Inhabited

inductive LinkFailure
  /-- No robot is known; nothing is sent. -/
  | noAddress
  | unreachable (method : Method) (url reason : String)
  | refused (status : Int)
  /-- The robot's answer is not JSON. -/
  | unreadable (reason : String)
  /-- The robot's answer nests too deeply. This is the reader's failure and no robot's. -/
  | overwhelmed (reason : String)
  deriving DecidableEq, Repr

namespace LinkFailure

def message : LinkFailure → String
  | noAddress => "Robot IP not set"
  | unreachable method url reason => method.name ++ " " ++ url ++ " failed: " ++ reason
  | refused status => "HTTP error " ++ toString status
  | unreadable reason => "Invalid status response: " ++ reason
  | overwhelmed reason => reason

end LinkFailure

def Body.read : Body → Except LinkFailure Json
  | ok value => .ok value
  | error reason => .error (.unreadable reason)
  | overwhelming reason => .error (.overwhelmed reason)

namespace Client

def url (c : Client) : Except LinkFailure String :=
  if c.address = "" then .error .noAddress
  else .ok ("http://" ++ c.address ++ "/api/servos")

/-- Sends a request; the statuses from 200 to 299 tell success. -/
def exchange (c : Client) (method : Method) (body : Option Json) :
    Dialogue (Except LinkFailure Body) :=
  match c.url with
  | .error e => .done (.error e)
  | .ok url =>
    .ask ⟨method, url, body, c.timeout⟩ fun
      | .failed reason => .done (.error (.unreachable method url reason))
      | .answered status reply =>
        .done (if 200 ≤ status ∧ status < 300 then .ok reply else .error (.refused status))

/-- Posts a document and ignores what the answer holds. -/
def post (c : Client) (body : Json) : Dialogue (Except LinkFailure Unit) :=
  return (← c.exchange .post (some body)).map fun _ => ()

def sendPositions (c : Client) (commands : List Servo.Command) :
    Dialogue (Except LinkFailure Unit) :=
  c.post (.array (commands.map Servo.Command.json))

/-- Sends limits of servos, which are passed on as they are. -/
def sendLimits (c : Client) (limits : Json) : Dialogue (Except LinkFailure Unit) := c.post limits

def status (c : Client) : Dialogue (Except LinkFailure Json) :=
  return (← c.exchange .get none).bind Body.read

def close (_ : Client) : Dialogue Unit := .close (.done ())

end Client
end RobotHand
