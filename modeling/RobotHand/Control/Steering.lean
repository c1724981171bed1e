import RobotHand.Control.Basic

/-! What a control does by itself: it keeps formulas, evaluates them, and collects positions. -/
namespace RobotHand.Control

/-- The end of an operation that logs what it did with a servo. -/
def logged {α : Type} (c : Control) (servo : Servo.Reference) (a : α) : Turn α :=
  ⟨c, [], (servo.log.mapError .breakdown).map fun _ => a⟩

/-- Stores a formula that is blank or well formed; the result tells whether it was stored. What was
done is logged last, so that a formula is stored even if its servo cannot be named in the log. -/
def updateFormula (c : Control) (servo : Servo.Reference) (formula : String) : Turn Bool :=
  if isBlankText formula || Formula.validate (some formula) then
    match servo.resolve with
    | .ok id => { c with formulas := c.formulas.put id formula }.logged servo true
    | .error e => ⟨c, [], .error (.breakdown e)⟩
  else c.logged servo false

/-- Replaces all formulas, unchecked. -/
def setFormulas (c : Control) (formulas : Table String String) : Turn Unit :=
  match Servo.byId formulas with
  | .ok formulas => ⟨{ c with formulas }, [], .ok ()⟩
  | .error e => ⟨c, [], .error (.breakdown e)⟩

/-- The position that a formula gives on a hand. One that is blank is passed over, and one that
fails is logged with its servo. -/
def positionOf? (c : Control) (hand : List Landmark) (id : Int) (formula : String) :
    Except Breakdown (Option Int) :=
  match Formula.position (some formula) (some hand) Servo.minimum (c.maximum id) with
  | .ok p => .ok (some p)
  | .error .empty => .ok none
  | .error (.evaluation (.breakdown e)) => .error e
  | .error _ => (Servo.Reference.id id).log.map fun _ => none

def positionsOn (c : Control) (hand : List Landmark) : Except Breakdown (List (Int × Int)) := do
  let found ← c.formulas.entries.mapM fun (id, formula) =>
    return (← c.positionOf? hand id formula).map (id, ·)
  return found.filterMap id

/-- Evaluates all formulas on a frame; a servo whose formula fails keeps its position. -/
def process (c : Control) (frame : Frame) : Turn (Table Int Int) :=
  match frame with
  | none => ⟨c, [], .ok c.calculated⟩
  | some hand =>
    match c.positionsOn hand with
    | .error e => ⟨c, [], .error (.breakdown e)⟩
    | .ok positions =>
      let calculated := c.calculated.putAll positions
      ⟨{ c with calculated }, [.calculated calculated], .ok calculated⟩

/-- Whether a position is further from the last one sent than the threshold; servos start at zero.
-/
def hasMoved (c : Control) (id position : Int) : Bool :=
  !(Binary64.ofFloat c.threshold).natLe (position - (c.sent.get? id).getD 0).natAbs

def ascending (c : Control) : List (Int × Int) :=
  c.calculated.entries.mergeSort fun a b => decide (a.1 ≤ b.1)

/-- Collects from positions in order, and marks each one that has moved as sent. An invalid command
ends the collection; what was marked before it stays marked. -/
def collectFrom (c : Control) : List (Int × Int) → Turn (List Servo.Command)
  | [] => ⟨c, [], .ok []⟩
  | (id, position) :: rest =>
    if c.hasMoved id position then
      match (Servo.Command.of id position).toExcept with
      | .error complaints => ⟨c, [], .error (.invalidCommand complaints)⟩
      | .ok command =>
        ({ c with sent := c.sent.put id position }.collectFrom rest).map (command :: ·)
    else c.collectFrom rest

def collect (c : Control) : Turn (List Servo.Command) := c.collectFrom c.ascending

def setThreshold (c : Control) (threshold : Float) : Turn Unit := ⟨{ c with threshold }, [], .ok ()⟩

/-- Sets the seconds between two rounds, which must not be zero or less. -/
def setInterval (c : Control) (interval : Float) : Turn Unit :=
  if interval ≤ 0 then ⟨c, [], .error .nonPositiveInterval⟩
  else ⟨{ c with interval }, [], .ok ()⟩

/-- Starts a loop, unless one runs. -/
def start (c : Control) : Turn Unit := ⟨{ c with loops := c.loops.start }, [], .ok ()⟩

def stop (c : Control) : Turn Unit := ⟨{ c with loops := c.loops.stop }, [], .ok ()⟩

end RobotHand.Control
