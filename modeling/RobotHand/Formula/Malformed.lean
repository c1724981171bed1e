/-! What is wrong with the grammar of a formula. -/
namespace RobotHand.Formula

inductive Malformed
  | unexpectedEnd
  | unexpectedToken (lexeme : String)
  | invalidNumber (lexeme : String)
  /-- No parenthesis follows a function name. -/
  | missingOpening (function : String)
  | missingClosing
  | missingClosingOf (function : String)
  /-- More is open at once than the nesting limit allows. -/
  | tooDeep
  deriving DecidableEq, Repr

namespace Malformed

def message : Malformed → String
  | unexpectedEnd => "Unexpected end of formula"
  | unexpectedToken lexeme => "Unexpected token: " ++ lexeme
  | invalidNumber lexeme => "Invalid number: " ++ lexeme
  | missingOpening f => "Expected '(' after function name '" ++ f ++ "'"
  | missingClosing => "Missing closing parenthesis"
  | missingClosingOf f => "Missing closing parenthesis for function '" ++ f ++ "'"
  | tooDeep => "Formula is nested too deeply"

end Malformed

/-- The weight of what may be open at once while a formula is read or evaluated. -/
def nestingLimit : Nat := 1000

end RobotHand.Formula
