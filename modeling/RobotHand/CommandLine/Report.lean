import RobotHand.CommandLine.Command
import RobotHand.Control.Replay
import RobotHand.Hand.Reading

/-! What commands print, and how they end. -/
namespace RobotHand.CommandLine

/-- A failure that ends a command without an exit status. -/
inductive Crash
  | storage (cause : Settings.StorageFailure)
  | servos (complaints : List Document.Complaint)
  | breakdown (cause : Breakdown)
  | control (cause : Control.Fault)
  deriving DecidableEq, Repr

namespace Crash

def message : Crash → String
  | storage (.rejected complaints) | servos complaints | control (.invalidCommand complaints) =>
    "; ".intercalate (complaints.map Document.Complaint.message)
  | storage e => e.message?.getD "the settings file is not accessible"
  | breakdown e => e.message
  | control e => e.message?.getD "the control failed"

end Crash

/-- What a command leaves: its output, and an exit status unless it crashes. -/
structure Report where
  output : String := ""
  ending : Except Crash Nat

namespace Report

def exit (status : Nat) (output : String := "") : Report := ⟨output, .ok status⟩

def crash (cause : Crash) : Report := ⟨"", .error cause⟩

def lines (l : List String) : String := String.join (l.map (· ++ "\n"))

def padLeft (width : Nat) (s : String) : String :=
  String.ofList (List.replicate (width - s.length) ' ') ++ s

def padRight (width : Nat) (s : String) : String :=
  s ++ String.ofList (List.replicate (width - s.length) ' ')

/-- The verdict on a formula; the flag tells whether it is well formed. -/
def verdict (formula : String) : Bool × String :=
  match Formula.errorMessage? (some formula) with
  | none => (true, "OK     " ++ formula)
  | some message => (false, "ERROR  " ++ Quoted.quote formula ++ ": " ++ message)

def status (flags : List Bool) : Nat := if flags.all id then 0 else 1

def validate (formulas : List String) : Report :=
  let verdicts := formulas.map verdict
  exit (status (verdicts.map (·.1))) (lines (verdicts.map (·.2)))

/-- What a file holds, if it can be read and accepted. -/
def load? {α : Type} (tree : FileTree) (path : String) (read : String → Document.Checked α) :
    Option α :=
  match tree.read (Path.ofText path) with
  | .error _ => none
  | .ok s => (read s).toExcept.toOption

/-- The frame to evaluate on; without a file no hand is visible. -/
def frameOf? (tree : FileTree) : Option String → Option Frame
  | none | some "" => some none
  | some path => load? tree path Frame.read

/-- The highest position to evaluate to: a given one, else that of a servo in fresh settings. -/
def highest (servo maximum : Option Int) : Except Breakdown Int :=
  match maximum, servo with
  | some high, _ => .ok high
  | none, some id => Settings.default.maximum id
  | none, none => .ok Servo.defaultMaximum

def evaluate (tree : FileTree) (formula : String) (landmarks : Option String)
    (servo maximum : Option Int) : Report :=
  match frameOf? tree landmarks, highest servo maximum with
  | none, _ => exit 1
  | some _, .error e => crash (.breakdown e)
  | some frame, .ok high =>
    match Formula.position (some formula) frame Servo.minimum high with
    | .ok p => exit 0 (lines [toString p])
    | .error (.evaluation (.breakdown e)) => crash (.breakdown e)
    | .error e => exit 1 (lines ["Formula error: " ++ e.message])

def servoVerdict (s : Settings) (id : Int) : Bool × String :=
  match s.formulas.get? (toString id) with
  | none => (true, "-")
  | some formula => if isBlankText formula then (true, "-") else verdict formula

def servoLine (d : Servo.Definition) (verdict : String) : Except Breakdown String :=
  return padLeft 2 (toString d.id) ++ " " ++ padRight 15 d.name ++
    " (max " ++ padLeft 4 (← Integer.write d.maximum) ++ ")  " ++ verdict

/-- Lines up to the first that cannot be written, and what is wrong with that one. -/
def written : List (Except Breakdown String) → List String × Except Breakdown Unit
  | [] => ([], .ok ())
  | .error e :: _ => ([], .error e)
  | .ok line :: rest =>
    let (later, ending) := written rest
    (line :: later, ending)

def checkSettings (tree : FileTree) (path : String) : Report :=
  match Settings.load tree (Path.ofText path) with
  | .error e => crash (.storage e)
  | .ok s =>
    match s.servos with
    | .error complaints => crash (.servos complaints)
    | .ok servos =>
      let verdicts := servos.map fun d => (d, servoVerdict s d.id)
      let (printed, ending) := written (verdicts.map fun (d, v) => servoLine d v.2)
      ⟨lines printed, (ending.mapError .breakdown).map fun _ => status (verdicts.map (·.2.1))⟩

def changeLine (index : Nat) (commands : List Servo.Command) : String :=
  let changes := commands.map fun c => toString c.id ++ "=" ++ toString c.position
  "frame " ++ toString index ++ ": " ++
    if changes.isEmpty then "(no change)" else ", ".intercalate changes

def ofEnding (output : String) : Except Control.Fault Unit → Report
  | .ok _ => ⟨output, .ok 0⟩
  | .error e => ⟨output, .error (.control e)⟩

def replay (tree : FileTree) (frames settings : String) (address : Option String)
    (interval : Float) (dry : Bool) : Dialogue Report :=
  match Settings.load tree (Path.ofText settings), load? tree frames Frame.readAll with
  | .error e, _ => .done (crash (.storage e))
  | .ok _, none => .done (exit 1)
  | .ok s, some frames =>
    match Control.ofSettings s with
    | .error e => .done (crash (.breakdown e))
    | .ok c => do
      let c := (address.map fun address => (c.setAddress address).control).getD c
      if dry then
        let (changes, ending) := c.rehearse interval frames
        -- A pause that fails is the last one, as it ends the rehearsal.
        changes.forM fun _ => discard (Dialogue.pause interval)
        return ofEnding (lines (changes.mapIdx changeLine)) ending
      else
        let poll ← c.refresh
        match poll.result with
        | .error e => return crash (.control e)
        | .ok .null => return exit 1
        | .ok _ => return ofEnding "" (← poll.control.stream interval frames).result

end Report

namespace Command

def perform (tree : FileTree) : Command → Dialogue Report
  | .validate formulas => .done (.validate formulas)
  | .evaluate formula landmarks servo maximum =>
    .done (.evaluate tree formula landmarks servo maximum)
  | .checkSettings settings => .done (.checkSettings tree settings)
  | .replay frames settings address interval dry =>
    Report.replay tree frames settings address interval dry

end Command

def Command.files : Command → List String
  | .validate _ => []
  | .evaluate _ landmarks _ _ => landmarks.toList
  | .checkSettings settings => [settings]
  | .replay frames settings _ _ _ => [settings, frames]

def filesOf (texts : List String) : List String :=
  match Command.read texts with
  | .ok (some command) => command.files
  | _ => []

def usage : String := Report.lines
  ["usage: robot-hand [-h] [--log-level LEVEL] COMMAND ...",
    "",
    "commands:",
    "  validate FORMULA...       check formulas",
    "  evaluate FORMULA          evaluate a formula on a recorded frame",
    "                            [-l FILE] [-s SERVO] [--max-value MAXIMUM]",
    "  check-config              check the formulas of a settings file [-c FILE]",
    "  replay FRAMES             send what a recording leads to [-c FILE]",
    "                            [--robot-ip ADDRESS] [--frame-interval SECONDS] [--dry-run]"]

def run (tree : FileTree) (texts : List String) : Dialogue Report :=
  match Command.read texts with
  | .error .help => .done (.exit 0 usage)
  | .error .misuse => .done (.exit 2)
  | .ok none => .done (.exit 1 usage)
  | .ok (some command) => command.perform tree

end RobotHand.CommandLine
