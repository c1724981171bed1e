import RobotHand.Document.Checked
import RobotHand.Json.Token

/-! Numbers and texts in documents. A text may stand for the number that it writes, and a truth
value for one or zero. -/
namespace RobotHand.Document

open Checked

/-- A text without its underscores, if they stand one by one and not at the ends, and if there are
any. -/
def withoutUnderscores? (s : List Char) : Option (List Char) :=
  let doubled := (s.zip s.tail).any fun (a, b) => a == '_' && b == '_'
  if s.head? = some '_' ∨ s.getLast? = some '_' ∨ '_' ∉ s ∨ doubled then none
  else some (s.filter (· ≠ '_'))

def real : Json → Checked Float
  | .real x => ok x
  | .int i => ok (Binary64.ofInt i).toFloat
  | .bool b => ok (if b then 1 else 0)
  | .text s =>
    let plain := Decimal.readAscii? (trimWhere Integer.isOuterBlank s.toList)
    let joined := (withoutUnderscores? s.toList).bind Decimal.readAscii?
    match plain <|> joined with
    | some x => ok x
    | none => complain .unreadableReal
  | _ => complain .notReal

/-- What remains of digits after a zero at the front: zeros and underscores go, and at least one
character before a point or the end stays. Only a digit, a minus sign or a point may follow them. -/
def afterZero? (s : List Char) : Option (List Char) :=
  let zeros := '0' :: s.takeWhile fun c => c == '0' || c == '_'
  let last := (zeros.getLast?).getD '0'
  match s.dropWhile fun c => c == '0' || c == '_' with
  | [] => some [last]
  | '.' :: fraction => some (last :: '.' :: fraction)
  | c :: r => if c.isDigit ∨ c = '-' then some (c :: r) else none

/-- A numeral without its sign and without zeros in front; a text that no digit starts is none. -/
def unsignedWithoutZeros? : List Char → Option (List Char)
  | '0' :: r => afterZero? r
  | c :: r => if c.isDigit then some (c :: r) else none
  | [] => none

/-- A numeral without zeros in front; a minus sign before them stays. -/
def withoutLeadingZeros? : List Char → Option (List Char)
  | '-' :: r => (unsignedWithoutZeros? r).map ('-' :: ·)
  | r => unsignedWithoutZeros? r

/-- A numeral without a fraction of zeros, of which there must be one. -/
def withoutZeroFraction (s : List Char) : List Char :=
  match s.dropWhile (· ≠ '.') with
  | '.' :: '0' :: r => if r.all (· == '0') then s.takeWhile (· ≠ '.') else s
  | _ => s

/-- A plus sign goes, unless a minus sign follows it. -/
def withoutPlus? : List Char → Option (List Char)
  | '+' :: '-' :: _ => none
  | '+' :: r => some r
  | r => some r

/-- The plain numeral that a text stands for: no blanks, no plus sign, no zeros in front, no
fraction of zeros, and no underscores. -/
def plainNumeral? (s : List Char) : Option (List Char) := do
  let numeral ← withoutPlus? (trimWhere Integer.isOuterBlank s)
  let short := withoutZeroFraction (← withoutLeadingZeros? numeral)
  return (withoutUnderscores? short).getD short

/-- How many digits the whole part of a numeral without a sign has. A zero ends it. -/
def wholeDigits (s : List Char) : Nat :=
  if s.head? = some '0' then 1 else (s.takeWhile Char.isDigit).length

/-- Whether the sign and the whole part of a numeral are longer than a text may write. -/
def isTooLong : List Char → Bool
  | '-' :: r => decide (Breakdown.digitLimit < wholeDigits r + 1)
  | r => decide (Breakdown.digitLimit < wholeDigits r)

/-- The integer that a text writes. Unlike a number, a text may not be too long. -/
def integerOfText (s : List Char) : Checked Int :=
  match plainNumeral? s with
  | none => complain .unreadableInteger
  | some numeral =>
    if isTooLong numeral then complain .tooLarge
    else
      match Json.Token.wordValue? numeral with
      | some (.int i) => ok i
      | _ => complain .unreadableInteger

def integer : Json → Checked Int
  | .int i => ok i
  | .bool b => ok (if b then 1 else 0)
  | .real x =>
    match Binary64.ofFloat x with
    | .finite n s e =>
      match (Binary64.finite n s e).toInt? with
      | some i =>
        if -0x8000000000000000 < i ∧ i < 0x8000000000000000 then ok i else complain .tooLarge
      | none => complain .fractional
    | _ => complain .notFinite
  | .text s => integerOfText s.toList
  | _ => complain .notInteger

def text : Json → Checked String
  | .text s => ok s
  | _ => complain .notText

def text? : Json → Checked (Option String)
  | .null => ok none
  | v => some <$> text v

end RobotHand.Document
