import Mathlib
import RobotHand.Formula.Assembly

/-! The grammar of formulas as a relation between token lists and trees. Each derivation carries its
nesting, the greatest weight of what stands open at once within it. -/
namespace RobotHand.Formula

mutual

/-- A sum is a product, or a sum and a product with `+` or `-` between them. -/
inductive IsSum : Nat → List Token → Expr → Prop
  | product {n ts e} (h : IsProduct n ts e) : IsSum n ts e
  | join {m n ts us a b op lexeme} (left : IsSum m ts a) (level : op.precedence? = some .sum)
      (right : IsProduct n us b) :
      IsSum (max m n) (ts ++ ⟨.operator op, lexeme⟩ :: us) (.binary op a b)

/-- A product is an operand, or a product and an operand with `*` or `/` between them. -/
inductive IsProduct : Nat → List Token → Expr → Prop
  | operand {n ts e} (h : IsOperand n ts e) : IsProduct n ts e
  | join {m n ts us a b op lexeme} (left : IsProduct m ts a)
      (level : op.precedence? = some .product)
      (right : IsOperand n us b) :
      IsProduct (max m n) (ts ++ ⟨.operator op, lexeme⟩ :: us) (.binary op a b)

/-- An operand is a well-formed number, a sum in parentheses, which leave no node, a call, a
variable, or a minus sign before a single operand. -/
inductive IsOperand : Nat → List Token → Expr → Prop
  | number {v lexeme} : IsOperand 0 [⟨.number (some v), lexeme⟩] (.number v)
  | group {n ts e l r} (h : IsSum n ts e) :
      IsOperand (Assembly.weight .group + n) (⟨.opening, l⟩ :: ts ++ [⟨.closing, r⟩]) e
  | call {n ts es f lexeme l r} (h : IsArguments n ts es) :
      IsOperand (Assembly.weight (.call f []) + n)
        (⟨.function f, lexeme⟩ :: ⟨.opening, l⟩ :: ts ++ [⟨.closing, r⟩]) (.call f es)
  | emptyCall {f lexeme l r} :
      IsOperand 0 [⟨.function f, lexeme⟩, ⟨.opening, l⟩, ⟨.closing, r⟩] (.call f [])
  | variable {x lexeme} : IsOperand 0 [⟨.variable x, lexeme⟩] (.variable x)
  | minus {n ts e lexeme} (h : IsOperand n ts e) :
      IsOperand (n + 1) (⟨.operator .subtract, lexeme⟩ :: ts) (.unary .subtract e)

/-- Arguments are sums with commas between them, at least one. -/
inductive IsArguments : Nat → List Token → List Expr → Prop
  | first {n ts e} (h : IsSum n ts e) : IsArguments n ts [e]
  | next {m n ts us es e lexeme} (front : IsArguments m ts es) (last : IsSum n us e) :
      IsArguments (max m n) (ts ++ ⟨.comma, lexeme⟩ :: us) (es ++ [e])

end

/-- The grammar assigns a tree to a token list. -/
def Derives (ts : List Token) (e : Expr) : Prop := ∃ n, IsSum n ts e

def AreMinuses (n : Nat) (ts : List Token) : Prop :=
  ts.length = n ∧ ∀ t ∈ ts, t.kind = .operator .subtract

theorem AreMinuses.append {n : Nat} {ts : List Token} (h : AreMinuses n ts) (lexeme : String) :
    AreMinuses (n + 1) (ts ++ [⟨.operator .subtract, lexeme⟩]) := by
  obtain ⟨hl, hk⟩ := h
  refine ⟨by simp [hl], ?_⟩
  intro t ht
  rcases List.mem_append.mp ht with ht | ht
  · exact hk t ht
  · rw [List.mem_singleton.mp ht]

theorem IsOperand.negate {n : Nat} {ts us : List Token} {e : Expr} (hm : AreMinuses n ts)
    {k : Nat} (he : IsOperand k us e) : IsOperand (k + n) (ts ++ us) (Pending.negate n e) := by
  induction ts generalizing n with
  | nil =>
    obtain rfl : 0 = n := hm.1
    exact he
  | cons t ts ih =>
    obtain ⟨kind, lexeme⟩ := t
    obtain rfl : ts.length + 1 = n := hm.1
    have hrest : AreMinuses ts.length ts := ⟨rfl, fun t ht => hm.2 t (by simp [ht])⟩
    have hkind : kind = .operator .subtract := hm.2 ⟨kind, lexeme⟩ (by simp)
    subst hkind
    have hi : IsOperand (k + ts.length + 1) (⟨.operator .subtract, lexeme⟩ :: (ts ++ us))
        (.unary .subtract (Pending.negate ts.length e)) := .minus (ih hrest)
    simpa only [Pending.negate, List.cons_append, Nat.add_assoc] using hi

/-- A left operand of a level with its operator, or nothing, waits for a right operand. -/
inductive Waiting (part : Nat → List Token → Expr → Prop) (level : Operator.Precedence) :
    Option (Expr × Operator) → List Token → Prop
  | nothing : Waiting part level none []
  | left {n ts e op lexeme} (h : part n ts e) (hop : op.precedence? = some level) :
      Waiting part level (some (e, op)) (ts ++ [⟨.operator op, lexeme⟩])

theorem Waiting.sum {w : Option (Expr × Operator)} {n : Nat} {ts us : List Token} {e : Expr}
    (hw : Waiting IsSum .sum w ts) (he : IsProduct n us e) :
    Derives (ts ++ us) (Pending.join w e) := by
  cases hw with
  | nothing => exact ⟨n, .product he⟩
  | left h hop =>
    simp only [List.append_assoc, List.singleton_append]
    exact ⟨_, .join h hop he⟩

theorem Waiting.product {w : Option (Expr × Operator)} {n : Nat} {ts us : List Token} {e : Expr}
    (hw : Waiting IsProduct .product w ts) (he : IsOperand n us e) :
    ∃ k, IsProduct k (ts ++ us) (Pending.join w e) := by
  cases hw with
  | nothing => exact ⟨n, .operand he⟩
  | left h hop =>
    simp only [List.append_assoc, List.singleton_append]
    exact ⟨_, .join h hop he⟩

end RobotHand.Formula
