/-! Tokens of formulas. -/
namespace RobotHand.Formula

/-- Arithmetic operators; trees and tokens built by hand may hold other symbols. -/
inductive Operator
  | add
  | subtract
  | multiply
  | divide
  | other (symbol : String)
  deriving DecidableEq, Repr

namespace Operator

def symbol : Operator → String
  | add => "+"
  | subtract => "-"
  | multiply => "*"
  | divide => "/"
  | other s => s

def ofSymbol (s : String) : Operator :=
  if s = "+" then add else if s = "-" then subtract
  else if s = "*" then multiply else if s = "/" then divide else other s

/-- Products bind tighter than sums. -/
inductive Precedence
  | sum
  | product
  deriving DecidableEq, Repr

def precedence? : Operator → Option Precedence
  | add | subtract => some .sum
  | multiply | divide => some .product
  | other _ => none

end Operator

inductive Token.Kind
  /-- A number; `none` for a malformed one. -/
  | number (value : Option Float)
  | operator (op : Operator)
  | opening
  | closing
  | function (name : String)
  | variable (name : String)
  | comma
  deriving DecidableEq, Repr

structure Token where
  kind : Token.Kind
  lexeme : String
  deriving DecidableEq, Repr

end RobotHand.Formula
