import RobotHand.Json.Basic
import RobotHand.Number.Breakdown

/-! Programs that talk to a robot over HTTP, as trees of requests and what follows each answer. -/
namespace RobotHand

inductive Method
  | get
  | post
  deriving DecidableEq, Repr

def Method.name : Method → String
  | get => "GET"
  | post => "POST"

structure Request where
  method : Method
  url : String
  body : Option Json := none
  timeout : Float
  deriving Repr

inductive Body
  | ok (value : Json)
  /-- The body is no JSON. -/
  | error (reason : String)
  /-- The body nests too deeply for the reader, which breaks down. -/
  | overwhelming (reason : String)

/-- What comes of a request: no answer, for a reason, or a status with a body, which need not be
readable. -/
inductive Outcome
  | failed (reason : String)
  | answered (status : Int) (body : Body)

instance : Inhabited Outcome := ⟨.failed ""⟩

inductive Call
  | request (r : Request)
  /-- The connection is given up. -/
  | close
  /-- Seconds go by. -/
  | wait (seconds : Float)
  deriving Repr

/-- A program that ends in a value after finitely many calls. -/
inductive Dialogue (α : Type)
  | done (value : α)
  | ask (r : Request) (next : Outcome → Dialogue α)
  | close (next : Dialogue α)
  | wait (seconds : Float) (next : Dialogue α)

namespace Dialogue

variable {α β : Type}

def bind : Dialogue α → (α → Dialogue β) → Dialogue β
  | done a, f => f a
  | ask r next, f => ask r fun o => (next o).bind f
  | close next, f => close (next.bind f)
  | wait seconds next, f => wait seconds (next.bind f)

instance : Monad Dialogue where
  pure := done
  bind := bind

/-- Whether the clock, which counts nanoseconds in 64 bits, reaches to the end of a wait. -/
def isWaitable (seconds : Float) : Bool := decide (seconds * 1e9 < 9223372036854775808)

/-- Nothing is wrong with a pause that is not positive, as it is not made. -/
def checkPause (seconds : Float) : Except Breakdown Unit :=
  if 0 < seconds ∧ ¬ isWaitable seconds then .error .tooLongToWait else .ok ()

/-- Lets a positive number of seconds go by. -/
def pause (seconds : Float) : Dialogue (Except Breakdown Unit) :=
  match checkPause seconds with
  | .error e => done (.error e)
  | .ok _ => if 0 < seconds then wait seconds (done (.ok ())) else done (.ok ())

/-- What a run of a program leaves: its value, its calls in order, and the outcomes that it did not
use. -/
structure Run (α : Type) where
  value : α
  calls : List Call
  rest : List Outcome

/-- Runs a program against outcomes in order; the idle one stands in when none is left. -/
def run (idle : Outcome) : Dialogue α → List Outcome → Run α
  | done a, script => ⟨a, [], script⟩
  | ask r next, [] =>
    let later := (next idle).run idle []
    { later with calls := .request r :: later.calls }
  | ask r next, o :: script =>
    let later := (next o).run idle script
    { later with calls := .request r :: later.calls }
  | close next, script =>
    let later := next.run idle script
    { later with calls := .close :: later.calls }
  | wait seconds next, script =>
    let later := next.run idle script
    { later with calls := .wait seconds :: later.calls }

theorem run_bind (idle : Outcome) (d : Dialogue α) (f : α → Dialogue β) (script : List Outcome) :
    (d.bind f).run idle script =
      let first := d.run idle script
      let second := (f first.value).run idle first.rest
      { second with calls := first.calls ++ second.calls } := by
  induction d generalizing script with
  | done a => rfl
  | ask r next ih => cases script <;> simp [bind, run, ih]
  | close next ih => simp [bind, run, ih]
  | wait seconds next ih => simp [bind, run, ih]

end Dialogue
end RobotHand
