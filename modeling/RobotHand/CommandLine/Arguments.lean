import RobotHand.CommandLine.Word

/-! The values and operands that the words of a command line hold. -/
namespace RobotHand.CommandLine

/-- Which operands a command still takes. -/
inductive Operands
  | absent
  | one
  /-- The single operand is there; a separator may follow it. -/
  | last
  /-- At least one. -/
  | many
  /-- At least one is there, and more may follow at once. -/
  | more
  /-- A first operand, and then all words as they are. -/
  | rest
  deriving DecidableEq, Repr

namespace Operands

def afterSwitch : Operands → Operands
  | last | more => absent
  | o => o

end Operands

structure Arguments where
  /-- The values of switches in order; a switch without a value has the empty one. -/
  given : List (Key × String) := []
  operands : List String := []
  /-- Words that no switch and no operand takes. -/
  extras : List String := []
  deriving DecidableEq, Repr

inductive Stop
  /-- The user asks for help. -/
  | help
  | misuse
  deriving DecidableEq, Repr

namespace Arguments

def value? (a : Arguments) (k : Key) : Option String :=
  (a.given.reverse.find? fun g => g.1 = k).map (·.2)

/-- Takes a switch with its value, before the later words are read. -/
def take (s : Switch) (value : String) (later : Except Stop Arguments) : Except Stop Arguments :=
  if s.key = .help then .error .help
  else if (s.accepts?.map fun accepts => accepts value).getD true then
    later.map fun a => { a with given := (s.key, value) :: a.given }
  else .error .misuse

def takeAll (switches : List Switch) (later : Except Stop Arguments) : Except Stop Arguments :=
  switches.foldr (fun s later => take s "" later) later

def withOperand (s : String) (later : Except Stop Arguments) : Except Stop Arguments :=
  later.map fun a => { a with operands := s :: a.operands }

def withExtra (s : String) (later : Except Stop Arguments) : Except Stop Arguments :=
  later.map fun a => { a with extras := s :: a.extras }

/-- What ends a word of switches: a switch that may have a value in the word, or letters that are no
switch. -/
inductive Ending
  | switch (s : Switch) (value : Option String)
  | extra (text : String)

/-- The switches of a word, in which short names without values may be joined: those before the end
of the word, and its end. -/
def unjoin (switches : List Switch) (s : Switch) (short sign : Bool) (joined : List Char) :
    Option (List Switch × Ending) :=
  if s.takesValue then some ([], .switch s (some (String.ofList joined)))
  else if !short || sign then none
  else
    match joined with
    | [] | '-' :: _ => none
    | c :: r =>
      match Switch.find? switches (String.ofList ['-', c]), r with
      | none, r => some ([s], .extra (String.ofList ('-' :: c :: r)))
      | some next, [] => some ([s], .switch next none)
      | some next, '=' :: value =>
        (unjoin switches next true true value).map fun (before, ending) => (s :: before, ending)
      | some next, r =>
        (unjoin switches next true false r).map fun (before, ending) => (s :: before, ending)

/-- Reads words from left to right. The value of a switch is joined to it or is the next word, if
that is plain. -/
def read (switches : List Switch) (operands : Operands) : List Word → Except Stop Arguments
  | [] => if operands = .one ∨ operands = .many then .error .misuse else .ok {}
  | ⟨text, .unknown⟩ :: ws => withExtra text (read switches operands.afterSwitch ws)
  | ⟨text, .separator⟩ :: ws =>
    match operands with
    | .absent => withExtra text (read switches operands ws)
    | .rest => .error .misuse
    | .last => read switches .absent ws
    | o => read switches o ws
  | ⟨text, .plain⟩ :: ws =>
    match operands with
    | .absent | .last => withExtra text (read switches .absent ws)
    | .one => withOperand text (read switches .last ws)
    | .many | .more => withOperand text (read switches .more ws)
    | .rest => .ok { operands := text :: ws.map Word.text }
  | ⟨_, .switch s short joined⟩ :: ws =>
    let parts := match joined with
      | none => some ([], Ending.switch s none)
      | some joined => unjoin switches s short joined.sign joined.value
    let later := operands.afterSwitch
    match parts, ws with
    | none, _ => .error .misuse
    | some (before, .extra text), ws => takeAll before (withExtra text (read switches later ws))
    | some (before, .switch last (some value)), ws =>
      takeAll before (take last value (read switches later ws))
    | some (before, .switch last none), ws =>
      if last.takesValue then
        match ws with
        | ⟨value, .plain⟩ :: ws => takeAll before (take last value (read switches later ws))
        | _ => .error .misuse
      else takeAll before (take last "" (read switches later ws))

def ofTexts (switches : List Switch) (operands : Operands) (texts : List String) :
    Except Stop Arguments :=
  match Word.ofTexts? switches texts with
  | some words => read switches operands words
  | none => .error .misuse

end Arguments
end RobotHand.CommandLine
