import RobotHand.Number.Decimal
import RobotHand.Number.Integer

/-! Number literals as text: an optional sign, then digits with an optional point and exponent, or
one of the words for a value that is not finite. -/
namespace RobotHand.Decimal

def valueOf (s : List Char) : Nat := numberOfDigits (s.filterMap digitValue?)

/-- An exponent: `e` or `E`, an optional sign, and digits up to the end. -/
def exponent? : List Char → Option Int
  | [] => none
  | e :: r =>
    let (negative, ds) := Integer.sign r
    if (e = 'e' ∨ e = 'E') ∧ ds ≠ [] ∧ ds.all Char.isDigit then
      some (if negative then -(valueOf ds : Int) else valueOf ds)
    else none

/-- The fraction after a point, if there is a point, and what follows. -/
def fraction : List Char → List Char × List Char
  | '.' :: r => (r.takeWhile Char.isDigit, r.dropWhile Char.isDigit)
  | r => ([], r)

/-- Digits with an optional point before, among or after them, and an optional exponent. -/
def unsigned? (s : List Char) : Option Float :=
  let whole := s.takeWhile Char.isDigit
  let (part, r) := fraction (s.dropWhile Char.isDigit)
  if whole ++ part = [] then none
  else
    (if r = [] then some 0 else exponent? r).map fun e =>
      toFloat (valueOf (whole ++ part)) (e - part.length)

/-- The words for values that are not finite, in either case of letters. -/
def word? (s : List Char) : Option Float :=
  match String.ofList (s.map Char.toLower) with
  | "inf" | "infinity" => some (1 / 0)
  | "nan" => some (0 / 0)
  | _ => none

def readAscii? (s : List Char) : Option Float :=
  let (negative, body) := Integer.sign s
  (word? body <|> unsigned? body).map fun x => if negative then -x else x

/-- Removes underscores, each of which must stand between two digits; the flag tells whether a
digit precedes. -/
def joinDigits? : Bool → List Char → Option (List Char)
  | _, [] => some []
  | true, '_' :: d :: r => if d.isDigit then joinDigits? false (d :: r) else none
  | _, c :: r => if c = '_' then none else (joinDigits? c.isDigit r).map (c :: ·)
termination_by _ s => s.length

/-- A digit of any script as an ASCII digit. -/
def asciiDigit (c : Char) : Char :=
  match digitValue? c with
  | some d => Char.ofNat ('0'.toNat + d)
  | none => c

/-- Reads a literal with blanks around it, digits of any script, and underscores between digits. -/
def read? (s : String) : Option Float :=
  (joinDigits? false ((trimWhere Integer.isOuterBlank s.toList).map asciiDigit)).bind readAscii?

end RobotHand.Decimal
