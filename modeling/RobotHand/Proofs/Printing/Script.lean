import RobotHand.Formula.Scan
import RobotHand.Proofs.Grammar.Parsing

/-! Scripts: expression trees that keep the spelling of their numbers, with the text and the tokens
that they are written with. -/
namespace RobotHand.Formula

/-- A number as it is written: digits, and perhaps a point with further digits after it. -/
structure Numeral where
  whole : List Char
  fraction : Option (List Char)
  whole_ne_nil : whole ≠ []
  whole_digits : ∀ c ∈ whole, c.isDigit
  fraction_digits : ∀ c ∈ fraction.getD [], c.isDigit

namespace Numeral

def text (n : Numeral) : List Char :=
  match n.fraction with
  | none => n.whole
  | some ds => n.whole ++ '.' :: ds

/-- The double nearest to what the digits write. -/
def value (n : Numeral) : Float :=
  let ds := n.fraction.getD []
  Decimal.toFloat (Decimal.valueOf (n.whole ++ ds)) (-(ds.length : Int))

end Numeral

/-- What may follow the first letter of a name; the flag tells whether a closing square bracket
stands right before, as it must before a point. -/
inductive IsNameRest : Bool → List Char → Prop
  | nil {b} : IsNameRest b []
  | part {b c r} (hc : isNamePart c) (h : IsNameRest (c == ']') r) : IsNameRest b (c :: r)
  | axis {a r} (ha : isAxis a) (h : IsNameRest false r) : IsNameRest true ('.' :: a :: r)

structure Name where
  first : Char
  rest : List Char
  isAlpha_first : first.isAlpha
  isNameRest : IsNameRest false rest

namespace Name

def text (x : Name) : List Char := x.first :: x.rest

def string (x : Name) : String := String.ofList x.text

end Name

/-- A tree of numerals, names, minus signs, arithmetic operators and calls. -/
inductive Script
  | number (n : Numeral)
  | variable (x : Name)
  | minus (operand : Script)
  | join (op : Operator) (h : op.precedence?.isSome) (left right : Script)
  | call (f : Name) (arguments : List Script)

namespace Script

mutual

/-- The tree without the spelling of its numbers. -/
def tree : Script → Expr
  | .number n => .number n.value
  | .variable x => .variable x.string
  | .minus e => .unary .subtract e.tree
  | .join op _ a b => .binary op a.tree b.tree
  | .call f es => .call f.string (trees es)

def trees : List Script → List Expr
  | [] => []
  | e :: es => e.tree :: trees es

end

theorem trees_append (es : List Script) (e : Script) :
    trees (es ++ [e]) = trees es ++ [e.tree] := by
  induction es with
  | nil => simp [trees]
  | cons e' es ih => simp [trees, ih]

mutual

/-- The text: parentheses around each operator, and commas between arguments. -/
def text : Script → List Char
  | .number n => n.text
  | .variable x => x.text
  | .minus e => '-' :: e.text
  | .join op _ a b => '(' :: (a.text ++ op.symbol.toList ++ b.text ++ [')'])
  | .call f es => f.text ++ '(' :: ([','].intercalate (texts es) ++ [')'])

def texts : List Script → List (List Char)
  | [] => []
  | e :: es => e.text :: texts es

end

mutual

def tokens : Script → List Token
  | .number n => [⟨.number (some n.value), String.ofList n.text⟩]
  | .variable x => [⟨.variable x.string, x.string⟩]
  | .minus e => ⟨.operator .subtract, "-"⟩ :: e.tokens
  | .join op _ a b =>
    ⟨.opening, "("⟩ :: (a.tokens ++ ⟨.operator op, op.symbol⟩ :: b.tokens) ++ [⟨.closing, ")"⟩]
  | .call f es =>
    ⟨.function f.string, f.string⟩ :: ⟨.opening, "("⟩ ::
      [⟨.comma, ","⟩].intercalate (tokenLists es) ++ [⟨.closing, ")"⟩]

def tokenLists : List Script → List (List Token)
  | [] => []
  | e :: es => e.tokens :: tokenLists es

end

mutual

def nesting : Script → Nat
  | .number _ | .variable _ => 0
  | .minus e => e.nesting + 1
  | .join _ _ a b => Assembly.weight .group + max a.nesting b.nesting
  | .call _ [] => 0
  | .call f es => Assembly.weight (.call f.string []) + nestingAll es

def nestingAll : List Script → Nat
  | [] => 0
  | e :: es => max e.nesting (nestingAll es)

end

def print (s : Script) : String := String.ofList s.text

end Script

/-- A further argument may also stand in front. -/
theorem IsArguments.cons {m n : Nat} {ts us : List Token} {e : Expr} {es : List Expr}
    (lexeme : String) : IsSum m ts e → IsArguments n us es →
      IsArguments (max m n) (ts ++ ⟨.comma, lexeme⟩ :: us) (e :: es)
  | head, .first h => .next (.first head) h
  | head, @IsArguments.next k l us us' es e' lexeme' front last => by
    have hall : IsArguments (max (max m k) l)
        (ts ++ ⟨.comma, lexeme⟩ :: us ++ ⟨.comma, lexeme'⟩ :: us') (e :: es ++ [e']) :=
      .next (IsArguments.cons lexeme head front) last
    rw [← Nat.max_assoc]
    simpa using hall

namespace Script

mutual

/-- The tokens of a script are an operand with its tree and its nesting. -/
theorem isOperand (s : Script) : IsOperand s.nesting s.tokens s.tree := by
  match s with
  | .number n =>
    rw [nesting, tokens, tree]
    exact .number
  | .variable x =>
    rw [nesting, tokens, tree]
    exact .variable
  | .minus e =>
    rw [nesting, tokens, tree]
    exact .minus e.isOperand
  | .join op h a b =>
    obtain ⟨level, hop⟩ := Option.isSome_iff_exists.mp h
    rw [nesting, tokens, tree]
    refine .group ?_
    cases level with
    | sum => exact .join (.product (.operand a.isOperand)) hop (.operand b.isOperand)
    | product => exact .product (.join (.operand a.isOperand) hop b.isOperand)
  | .call f [] =>
    rw [nesting, tokens, tree]
    exact .emptyCall
  | .call f (e :: es) =>
    rw [nesting, tokens, tree]
    · exact .call (areArguments (e :: es) (List.cons_ne_nil e es))
    · exact List.cons_ne_nil e es

theorem areArguments (es : List Script) (h : es ≠ []) :
    IsArguments (nestingAll es) ([⟨.comma, ","⟩].intercalate (tokenLists es)) (trees es) := by
  match es with
  | [e] =>
    have hfirst := IsArguments.first (.product (.operand e.isOperand))
    simpa [nestingAll, tokenLists, trees] using hfirst
  | e :: e' :: es =>
    have hrest := areArguments (e' :: es) (List.cons_ne_nil e' es)
    have hall := IsArguments.cons "," (.product (.operand e.isOperand)) hrest
    simpa [nestingAll, tokenLists, trees] using hall

end

end Script
end RobotHand.Formula
