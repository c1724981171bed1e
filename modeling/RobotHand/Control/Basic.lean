import RobotHand.Link.Client
import RobotHand.Settings.Basic

/-! The control of a hand: formulas turn landmarks into positions, and positions that have moved are
sent to the robot. -/
namespace RobotHand

/-- The background loops that send positions. Each is given a stop signal of its own and goes on
until that is set. Signals are numbered as they are made; the first belongs to no loop. -/
structure SendLoops where
  /-- Whether each signal is set. -/
  signals : List Bool := [false]
  /-- The signal that a stop sets. -/
  latest : Nat := 0
  /-- The signals of the loops started so far, in order. -/
  started : List Nat := []
  running : Bool := false
  deriving DecidableEq, Repr, Inhabited

namespace SendLoops

def isSet (l : SendLoops) (signal : Nat) : Bool := l.signals[signal]?.getD false

/-- Starts a loop with a new signal, unless one runs. -/
def start (l : SendLoops) : SendLoops :=
  if l.running then l
  else
    let signal := l.signals.length
    { signals := l.signals ++ [false], latest := signal, started := l.started ++ [signal],
      running := true }

def stop (l : SendLoops) : SendLoops :=
  { l with signals := l.signals.set l.latest true, running := false }

end SendLoops

structure Control where
  client : Client := {}
  /-- A position is sent once it has moved by more than this. -/
  threshold : Float := Settings.default.threshold
  /-- Seconds between two rounds of sending. -/
  interval : Float := Settings.default.interval
  /-- The highest positions of the servos that have one of their own. -/
  maxima : Table Int Int := .single Servo.wristRotator Servo.rotatorMaximum
  formulas : Table Int String := .empty
  /-- The last position that each formula gave. -/
  calculated : Table Int Int := .empty
  /-- The last position that was collected for each servo. -/
  sent : Table Int Int := .empty
  /-- Whether the last request succeeded. -/
  connected : Bool := false
  loops : SendLoops := {}
  deriving Inhabited

namespace Control

inductive Event
  | calculated (positions : Table Int Int)
  | sent (positions : Table Int Int)
  | status (report : Json)
  | connection (connected : Bool)

inductive Fault
  | breakdown (cause : Breakdown)
  | invalidCommand (complaints : List Document.Complaint)
  | link (cause : LinkFailure)
  | notConnected
  | nonPositiveInterval
  deriving DecidableEq, Repr

namespace Fault

def message? : Fault → Option String
  | breakdown cause => some cause.message
  | invalidCommand _ => none
  | link cause => some cause.message
  | notConnected => some "Not connected to robot"
  | nonPositiveInterval => some "Send interval must be positive"

end Fault

/-- What an operation leaves: the new state, what listeners were told, and its result. -/
structure Turn (α : Type) where
  control : Control
  events : List Event := []
  result : Except Fault α

namespace Turn

variable {α β : Type}

def map (f : α → β) (t : Turn α) : Turn β := { t with result := t.result.map f }

/-- Continues after a success; a failure ends the whole. -/
def andThen (t : Turn α) (f : Control → α → Dialogue (Turn β)) : Dialogue (Turn β) :=
  match t.result with
  | .error e => .done { t with result := .error e }
  | .ok a => do
    let later ← f t.control a
    return { later with events := t.events ++ later.events }

end Turn

def maximum (c : Control) (id : Int) : Int := (c.maxima.get? id).getD Servo.defaultMaximum

def running (c : Control) : Bool := c.loops.running

def ofSettings (s : Settings) : Except Breakdown Control := do
  let maxima ← s.maximaById
  let formulas ← Servo.byId s.formulas
  return { client := { address := s.address }, threshold := s.threshold, interval := s.interval,
           maxima, formulas }

end Control
end RobotHand
