import RobotHand.Formula.Token

/-! Expression trees. -/
namespace RobotHand.Formula

/-- A formula without its brackets and blanks. -/
inductive Expr
  | number (value : Float)
  | variable (name : String)
  | unary (op : Operator) (operand : Expr)
  | binary (op : Operator) (left right : Expr)
  | call (name : String) (arguments : List Expr)
  /-- A node of a kind that no formula has. -/
  | unknown (kind : String)
  deriving Repr, Inhabited

end RobotHand.Formula
