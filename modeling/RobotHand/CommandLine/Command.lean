import RobotHand.CommandLine.Arguments
import RobotHand.Number.Literal
import RobotHand.Settings.Storage

/-! The commands of the command line. -/
namespace RobotHand.CommandLine

inductive Command
  /-- Checks formulas. -/
  | validate (formulas : List String)
  /-- Evaluates a formula on a recorded frame. -/
  | evaluate (formula : String) (landmarks : Option String) (servo maximum : Option Int)
  /-- Checks the formulas of settings. -/
  | checkSettings (settings : String)
  /-- Plays a recording, and only shows what would be sent if the run is dry. -/
  | replay (frames settings : String) (address : Option String) (interval : Float) (dry : Bool)
  deriving Repr

inductive Command.Kind
  | validate
  | evaluate
  | checkSettings
  | replay
  deriving DecidableEq, Repr

def helpSwitch : Switch := { key := .help, names := ["-h", "--help"] }

def settingsSwitch : Switch :=
  { key := .settings, names := ["--config", "-c"], accepts? := some fun _ => true }

def isInteger (s : String) : Bool := (Integer.read s).toOption.isSome

def generalSwitches : List Switch :=
  [helpSwitch,
    { key := .logLevel, names := ["--log-level"],
      accepts? := some fun s => s ∈ ["DEBUG", "INFO", "WARNING", "ERROR"] }]

namespace Command.Kind

def name : Kind → String
  | validate => "validate"
  | evaluate => "evaluate"
  | checkSettings => "check-config"
  | replay => "replay"

def ofName? (s : String) : Option Kind :=
  [validate, evaluate, checkSettings, replay].find? fun k => k.name = s

def switches : Kind → List Switch
  | validate => [helpSwitch]
  | evaluate =>
    [helpSwitch,
      { key := .landmarks, names := ["--landmarks", "-l"], accepts? := some fun _ => true },
      { key := .servo, names := ["--servo", "-s"], accepts? := some isInteger },
      { key := .maximum, names := ["--max-value"], accepts? := some isInteger }]
  | checkSettings => [helpSwitch, settingsSwitch]
  | replay =>
    [helpSwitch, settingsSwitch,
      { key := .address, names := ["--robot-ip"], accepts? := some fun _ => true },
      { key := .interval, names := ["--frame-interval"],
        accepts? := some fun s => (Decimal.read? s).isSome },
      { key := .dryRun, names := ["--dry-run"] }]

def operands : Kind → Operands
  | validate => .many
  | evaluate | replay => .one
  | checkSettings => .absent

end Command.Kind

namespace Command

def integer? (a : Arguments) (k : Key) : Option Int :=
  (a.value? k).bind fun s => (Integer.read s).toOption

def ofArguments (k : Kind) (a : Arguments) : Command :=
  let operand := a.operands.headD ""
  let settings := (a.value? .settings).getD Settings.defaultPath
  match k with
  | .validate => .validate a.operands
  | .evaluate =>
    .evaluate operand (a.value? .landmarks) (integer? a .servo) (integer? a .maximum)
  | .checkSettings => .checkSettings settings
  | .replay =>
    .replay operand settings (a.value? .address)
      (((a.value? .interval).bind Decimal.read?).getD 0) (a.value? .dryRun).isSome

/-- Reads a command line; there may be no command in it. -/
def read (texts : List String) : Except Stop (Option Command) := do
  let general ← Arguments.ofTexts generalSwitches .rest texts
  match general.operands with
  | [] => if general.extras.isEmpty then return none else .error .misuse
  | name :: texts =>
    match Kind.ofName? name with
    | none => .error .misuse
    | some k =>
      let a ← Arguments.ofTexts k.switches k.operands texts
      if (general.extras ++ a.extras).isEmpty then return some (ofArguments k a)
      else .error .misuse

end Command
end RobotHand.CommandLine
