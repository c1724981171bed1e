import RobotHand.Formula.Token
import RobotHand.Number.Literal

/-! Formulas as tokens: blanks vanish, the longest token is taken, and a character that starts none
is skipped. Digits and letters are those of ASCII. -/
namespace RobotHand.Formula

/-- What follows the first digit of a number. -/
def isNumberPart (c : Char) : Bool := c.isDigit || c == '.'

def isNamePart (c : Char) : Bool :=
  c.isAlpha || c.isDigit || c == '_' || c == '[' || c == ']'

def isAxis (c : Char) : Bool := c == 'x' || c == 'y' || c == 'z'

/-- The rest of a name and what follows it; a point and a coordinate letter continue a name right
after a closing square bracket, which the flag tells. -/
def nameTail : Bool → List Char → List Char × List Char
  | _, [] => ([], [])
  | true, '.' :: a :: r =>
    if isAxis a then
      let (name, rest) := nameTail false r
      ('.' :: a :: name, rest)
    else ([], '.' :: a :: r)
  | _, c :: r =>
    if isNamePart c then
      let (name, rest) := nameTail (c == ']') r
      (c :: name, rest)
    else ([], c :: r)

theorem nameTail_append (b : Bool) (cs : List Char) :
    (nameTail b cs).1 ++ (nameTail b cs).2 = cs := by
  fun_induction nameTail b cs <;> simp_all

theorem length_nameTail_le (b : Bool) (cs : List Char) :
    (nameTail b cs).2.length ≤ cs.length := by
  conv => rhs; rw [← nameTail_append b cs]
  simp

/-- The value of digits with at most one point among them. -/
def numberValue? (lexeme : List Char) : Option Float :=
  let whole := lexeme.takeWhile Char.isDigit
  let value (fraction : List Char) : Float :=
    Decimal.toFloat (Decimal.valueOf (whole ++ fraction)) (-(fraction.length : Int))
  match lexeme.dropWhile Char.isDigit with
  | [] => some (value [])
  | _ :: fraction => if fraction.all Char.isDigit then some (value fraction) else none

/-- Tokens of a single character that is no digit or letter. -/
def mark? : Char → Option Token.Kind
  | '+' => some (.operator .add)
  | '-' => some (.operator .subtract)
  | '*' => some (.operator .multiply)
  | '/' => some (.operator .divide)
  | '(' => some .opening
  | ')' => some .closing
  | ',' => some .comma
  | _ => none

/-- A name is a function where an opening parenthesis follows at once. -/
def nameKind (name : String) (rest : List Char) : Token.Kind :=
  if rest.head? = some '(' then .function name else .variable name

def scan : List Char → List Token
  | [] => []
  | c :: r =>
    if c.isDigit then
      let lexeme := c :: r.takeWhile isNumberPart
      ⟨.number (numberValue? lexeme), String.ofList lexeme⟩ :: scan (r.dropWhile isNumberPart)
    else if c.isAlpha then
      let name := String.ofList (c :: (nameTail false r).1)
      ⟨nameKind name (nameTail false r).2, name⟩ :: scan (nameTail false r).2
    else
      match mark? c with
      | some kind => ⟨kind, c.toString⟩ :: scan r
      | none => scan r
termination_by cs => cs.length
decreasing_by
  all_goals simp only [List.length_cons]
  · have := (List.dropWhile_sublist isNumberPart (l := r)).length_le
    omega
  · have := length_nameTail_le false r
    omega
  · omega
  · omega

def tokens (formula : String) : List Token :=
  scan (formula.toList.filter fun c => !isBlankChar c)

end RobotHand.Formula
