import RobotHand.Text.Blank
import RobotHand.Text.DecimalDigit

/-! The words of a command line, told apart by the switches that a command knows. -/
namespace RobotHand.CommandLine

inductive Key
  | help
  | logLevel
  | landmarks
  | servo
  | maximum
  | settings
  | address
  | interval
  | dryRun
  deriving DecidableEq, Repr

/-- A switch has names, and may take a value that satisfies a test. -/
structure Switch where
  key : Key
  names : List String
  accepts? : Option (String → Bool) := none

namespace Switch

def takesValue (s : Switch) : Bool := s.accepts?.isSome

def find? (switches : List Switch) (name : String) : Option Switch :=
  switches.find? fun s => decide (name ∈ s.names)

end Switch

/-- A value that is joined to the name of a switch, with an equals sign between or without. -/
structure Joined where
  sign : Bool
  value : List Char

inductive Word.Kind
  | plain
  /-- The first `--`; all words after it are plain. -/
  | separator
  /-- A switch by one of its names, which is short if it is a single letter. -/
  | switch (s : Switch) (short : Bool) (joined : Option Joined)
  | unknown

structure Word where
  text : String
  kind : Word.Kind

namespace Word

/-- Whether a text is a minus sign and digits, with a point before the last digits or without. -/
def isNegativeNumber (s : List Char) : Bool :=
  let isDigit (c : Char) : Bool := (digitValue? c).isSome
  match dropFinalNewline s with
  | '-' :: r =>
    match r.dropWhile isDigit with
    | [] => !r.isEmpty
    | '.' :: f => !f.isEmpty && f.all isDigit
    | _ => false
  | _ => false

/-- The part of a text before an equals sign, and the part after it. -/
def splitValue (s : List Char) : String × Option Joined :=
  let name := String.ofList (s.takeWhile (· ≠ '='))
  match s.dropWhile (· ≠ '=') with
  | [] => (name, none)
  | _ :: value => (name, some ⟨true, value⟩)

/-- What a word is that starts with a minus sign and names no switch. -/
def unnamed (s : List Char) : Kind :=
  if isNegativeNumber s || s.contains ' ' then .plain else .unknown

/-- The switches that a beginning of a long name may mean. -/
def completions (switches : List Switch) (start : String) : List Switch :=
  switches.flatMap fun s => s.names.filterMap fun name =>
    if start.toList.isPrefixOf name.toList then some s else none

/-- What a word is; `none` if it may be the beginning of several long names. Long names may be cut
short, and a value may follow a name behind an equals sign, or a short name at once. -/
def classify? (switches : List Switch) (text : String) : Option Kind :=
  let cs := text.toList
  match cs with
  | '-' :: c :: r =>
    let (name, value) := splitValue cs
    match Switch.find? switches text, Switch.find? switches name, value with
    | some s, _, _ => some (.switch s (c ≠ '-') none)
    | none, some s, some value => some (.switch s (c ≠ '-') (some value))
    | none, _, _ =>
      if c = '-' then
        match completions switches name with
        | [] => some (unnamed cs)
        | [s] => some (.switch s false value)
        | _ => none
      else
        match Switch.find? switches (String.ofList ['-', c]) with
        | some s => some (.switch s true (some ⟨false, r⟩))
        | none => some (unnamed cs)
  | _ => some .plain

/-- The words of a command line; `none` if one of them is ambiguous. -/
def ofTexts? (switches : List Switch) : List String → Option (List Word)
  | [] => some []
  | text :: texts =>
    if text = "--" then some (⟨text, .separator⟩ :: texts.map fun text => ⟨text, .plain⟩)
    else do
      let kind ← classify? switches text
      return ⟨text, kind⟩ :: (← ofTexts? switches texts)

end Word
end RobotHand.CommandLine
