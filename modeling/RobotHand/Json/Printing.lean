import RobotHand.Json.Basic
import RobotHand.Number.Decimal
import RobotHand.Text.Quoted

/-! JSON values as text. Characters beyond ASCII are written as they are. -/
namespace RobotHand.Json

def escape (c : Char) : List Char :=
  match c with
  | '"' => ['\\', '"']
  | '\\' => ['\\', '\\']
  | '\x08' => ['\\', 'b']
  | '\x0c' => ['\\', 'f']
  | '\n' => ['\\', 'n']
  | '\r' => ['\\', 'r']
  | '\t' => ['\\', 't']
  | c => if c.toNat < 0x20 then '\\' :: 'u' :: Quoted.hex 4 c.toNat else [c]

def quote (s : String) : String :=
  String.ofList ('"' :: s.toList.flatMap escape ++ ['"'])

/-- A number in the fewest digits; JSON has no word for a number that is not finite. -/
def number (x : Float) : String :=
  if (Binary64.ofFloat x).isFinite then Decimal.plain x else "null"

inductive Layout
  /-- All on one line. -/
  | line
  /-- Each part on a line of its own, two columns deeper than its container. -/
  | indented
  deriving DecidableEq, Repr

namespace Layout

/-- What precedes a part, or the end, of a container at a depth. -/
def newline : Layout → Nat → String
  | line, _ => ""
  | indented, depth => "\n" ++ String.ofList (List.replicate (2 * depth) ' ')

def colon : Layout → String
  | line => ":"
  | indented => ": "

end Layout

mutual

def print (layout : Layout) (depth : Nat) : Json → String
  | .null => "null"
  | .bool b => if b then "true" else "false"
  | .int i => toString i
  | .real x => number x
  | .text s => quote s
  | .array [] => "[]"
  | .array (v :: vs) =>
    "[" ++ layout.newline (depth + 1) ++ print layout (depth + 1) v ++
      printItems layout (depth + 1) vs ++ layout.newline depth ++ "]"
  | .object [] => "\x7b\x7d"
  | .object ((name, v) :: fields) =>
    "\x7b" ++ layout.newline (depth + 1) ++ quote name ++ layout.colon ++
      print layout (depth + 1) v ++ printFields layout (depth + 1) fields ++
      layout.newline depth ++ "\x7d"

/-- The items after the first, each behind a comma. -/
def printItems (layout : Layout) (depth : Nat) : List Json → String
  | [] => ""
  | v :: vs =>
    "," ++ layout.newline depth ++ print layout depth v ++ printItems layout depth vs

/-- The fields after the first, each behind a comma. -/
def printFields (layout : Layout) (depth : Nat) : List (String × Json) → String
  | [] => ""
  | (name, v) :: fields =>
    "," ++ layout.newline depth ++ quote name ++ layout.colon ++ print layout depth v ++
      printFields layout depth fields

end

def compact (v : Json) : String := print .line 0 v

def pretty (v : Json) : String := print .indented 0 v

end RobotHand.Json
