import RobotHand.Number.Breakdown
import RobotHand.Number.Decimal
import RobotHand.Text.Blank
import RobotHand.Text.DecimalDigit
import RobotHand.Text.Quoted

/-! Integer literals: blanks around, one sign, decimal digits of any script, and single underscores
between digits. Integers are written in decimal. Neither may have too many digits. -/
namespace RobotHand.Integer

/-- Blanks that may stand around a literal: all but the four information separators. -/
def isOuterBlank (c : Char) : Bool :=
  isBlankChar c && !(decide (0x1c ≤ c.toNat) && decide (c.toNat ≤ 0x1f))

/-- The digits of a numeral and what follows it; `none` if an underscore does not stand between
two digits. -/
def digits : List Char → Option (List Nat × List Char)
  | [] => some ([], [])
  | '_' :: _ => none
  | c :: '_' :: r =>
    match digitValue? c with
    | none => some ([], c :: '_' :: r)
    | some d =>
      match digits r with
      | some (ds@(_ :: _), rest) => some (d :: ds, rest)
      | _ => none
  | c :: r =>
    match digitValue? c with
    | none => some ([], c :: r)
    | some d => (digits r).map fun (ds, rest) => (d :: ds, rest)

/-- Splits off a sign; the flag tells a minus. -/
def sign : List Char → Bool × List Char
  | '-' :: r => (true, r)
  | '+' :: r => (false, r)
  | r => (false, r)

/-- The number that digits write, refused when they are too many. -/
def ofDigits (ds : List Nat) : Except Breakdown Nat :=
  if Breakdown.digitLimit < ds.length then .error (.tooManyDigits ds.length)
  else .ok (numberOfDigits ds)

def read (s : String) : Except Breakdown Int :=
  let bad : Except Breakdown Int := .error (.notInteger (Quoted.quote s))
  let (negative, body) := sign (s.toList.dropWhile isOuterBlank)
  match digits body with
  | some (ds@(_ :: _), rest) =>
    match ofDigits ds with
    | .error e => .error e
    | .ok n => if rest.all isOuterBlank then .ok (if negative then -(n : Int) else n) else bad
  | _ => bad

def isShort (i : Int) : Bool := decide (Decimal.digitCount i.natAbs ≤ Breakdown.digitLimit)

def write (i : Int) : Except Breakdown String :=
  if isShort i then .ok (toString i) else .error .tooLongToWrite

theorem write_of_isShort {i : Int} (h : isShort i) : write i = .ok (toString i) := if_pos h

theorem write_of_not_isShort {i : Int} (h : ¬ isShort i) : write i = .error .tooLongToWrite :=
  if_neg h

end RobotHand.Integer
