import RobotHand.Proofs.Grammar.Completeness

/-! What assembly reads has a derivation: each assembly stands for the tokens that led to it. -/
namespace RobotHand.Formula

/-- The tokens since the innermost open parenthesis, where an operand must follow. -/
def Pending.StandsFor (p : Pending) (ts : List Token) : Prop :=
  ∃ sum product minuses, ts = sum ++ product ++ minuses ∧ Waiting IsSum .sum p.sum sum ∧
    Waiting IsProduct .product p.product product ∧ AreMinuses p.minuses minuses

theorem Pending.standsFor_nil : StandsFor {} [] :=
  ⟨[], [], [], rfl, .nothing, .nothing, rfl, by simp⟩

/-- The tokens up to the innermost open parenthesis, or up to the last comma within it. -/
inductive StackStandsFor : List (Bracket × Pending) → List Token → Prop
  | nil : StackStandsFor [] []
  | group {stack p ts us l} (below : StackStandsFor stack ts) (outer : p.StandsFor us) :
      StackStandsFor ((.group, p) :: stack) (ts ++ us ++ [⟨.opening, l⟩])
  | call {stack p ts us f lexeme l} (below : StackStandsFor stack ts) (outer : p.StandsFor us) :
      StackStandsFor ((.call f [], p) :: stack) (ts ++ us ++ [⟨.function f, lexeme⟩, ⟨.opening, l⟩])
  | arguments {stack p ts us f lexeme l n vs es c} (below : StackStandsFor stack ts)
      (outer : p.StandsFor us) (done : IsArguments n vs es) :
      StackStandsFor ((.call f es, p) :: stack)
        (ts ++ us ++ ⟨.function f, lexeme⟩ :: ⟨.opening, l⟩ :: vs ++ [⟨.comma, c⟩])

namespace Assembly

/-- The tokens that lead to an assembly. -/
inductive StandsFor : Assembly → List Token → Prop
  | wantOperand {stack p ts us} (below : StackStandsFor stack ts) (level : p.StandsFor us) :
      StandsFor (.wantOperand stack p) (ts ++ us)
  | wantOpening {stack p ts us f lexeme} (below : StackStandsFor stack ts)
      (level : p.StandsFor us) :
      StandsFor (.wantOpening f stack p) (ts ++ us ++ [⟨.function f, lexeme⟩])
  | wantArgument {stack p ts us f lexeme l} (below : StackStandsFor stack ts)
      (level : p.StandsFor us) :
      StandsFor (.wantArgument f stack p) (ts ++ us ++ [⟨.function f, lexeme⟩, ⟨.opening, l⟩])
  | wantOperator {stack p ts sum product n us e} (below : StackStandsFor stack ts)
      (hsum : Waiting IsSum .sum p.sum sum)
      (hproduct : Waiting IsProduct .product p.product product)
      (operand : IsOperand n us e) :
      StandsFor (.wantOperator stack p e) (ts ++ (sum ++ (product ++ us)))

theorem standsFor_start : StandsFor start [] := .wantOperand .nil Pending.standsFor_nil

theorem standsFor_settle {stack : List (Bracket × Pending)} {p : Pending} {ts us vs : List Token}
    {n : Nat} {e : Expr} (below : StackStandsFor stack ts) (level : p.StandsFor us)
    (operand : IsOperand n vs e) : StandsFor (settle stack p e) (ts ++ us ++ vs) := by
  obtain ⟨sum, product, minuses, rfl, hsum, hproduct, hminuses⟩ := level
  have hall := StandsFor.wantOperator (p := { p with minuses := 0 }) below hsum hproduct
    (operand.negate hminuses)
  simpa only [settle, List.append_assoc] using hall

/-- A token that an operand begins with leads from what stands before it to what stands after. -/
theorem standsFor_operand {stack : List (Bracket × Pending)} {p : Pending} {t : Token}
    {ts us : List Token} {s : Assembly} (below : StackStandsFor stack ts) (level : p.StandsFor us)
    (h : operand stack p t = .ok s) : s.StandsFor (ts ++ us ++ [t]) := by
  obtain ⟨kind, lexeme⟩ := t
  match kind with
  | .number (some v) =>
    cases h
    exact standsFor_settle below level .number
  | .number none => cases h
  | .operator .subtract =>
    cases h
    obtain ⟨sum, product, minuses, rfl, hsum, hproduct, hminuses⟩ := level
    have hlevel : Pending.StandsFor { p with minuses := p.minuses + 1 }
        (sum ++ product ++ (minuses ++ [⟨.operator .subtract, lexeme⟩])) :=
      ⟨sum, product, _, rfl, hsum, hproduct, hminuses.append lexeme⟩
    simpa only [List.append_assoc] using StandsFor.wantOperand below hlevel
  | .operator .add | .operator .multiply | .operator .divide | .operator (.other _) => cases h
  | .opening =>
    cases h
    have hstack : StackStandsFor ((.group, p) :: stack) (ts ++ us ++ [⟨.opening, lexeme⟩]) :=
      .group below level
    simpa using StandsFor.wantOperand hstack Pending.standsFor_nil
  | .closing => cases h
  | .function f =>
    cases h
    exact .wantOpening below level
  | .variable x =>
    cases h
    exact standsFor_settle below level .variable
  | .comma => cases h

/-- A token after a complete sum closes the innermost parenthesis or begins the next argument. -/
theorem standsFor_close {stack : List (Bracket × Pending)} {t : Token} {ts us : List Token}
    {e : Expr} {s : Assembly} (below : StackStandsFor stack ts) (sum : Derives us e)
    (h : close stack e t = .ok s) : s.StandsFor (ts ++ us ++ [t]) := by
  obtain ⟨kind, lexeme⟩ := t
  obtain ⟨n, hsum⟩ := sum
  cases below with
  | nil => cases h
  | group below outer =>
    cases kind with
    | closing =>
      cases h
      simpa using standsFor_settle below outer (.group hsum)
    | _ => cases h
  | @call stack p vs ws f name l below outer =>
    cases kind with
    | closing =>
      cases h
      simpa using standsFor_settle below outer (.call (.first hsum))
    | comma =>
      cases h
      have hstack : StackStandsFor ((.call f [e], p) :: stack)
          (vs ++ ws ++ ⟨.function f, name⟩ :: ⟨.opening, l⟩ :: us ++ [⟨.comma, lexeme⟩]) :=
        .arguments below outer (.first hsum)
      simpa using StandsFor.wantOperand hstack Pending.standsFor_nil
    | _ => cases h
  | @arguments stack p vs ws f name l _ xs es c below outer done =>
    cases kind with
    | closing =>
      cases h
      simpa using standsFor_settle below outer (.call (.next done hsum))
    | comma =>
      cases h
      have hstack : StackStandsFor ((.call f (es ++ [e]), p) :: stack)
          (vs ++ ws ++ ⟨.function f, name⟩ :: ⟨.opening, l⟩ :: (xs ++ ⟨.comma, c⟩ :: us) ++
            [⟨.comma, lexeme⟩]) :=
        .arguments below outer (.next done hsum)
      simpa using StandsFor.wantOperand hstack Pending.standsFor_nil
    | _ => cases h

theorem joining?_eq_some {t : Token} {level : Operator.Precedence} {op : Operator}
    (h : joining? t = some (level, op)) :
    t.kind = .operator op ∧ op.precedence? = some level := by
  unfold joining? at h
  split at h
  · next op' hkind =>
    obtain ⟨l, hl, he⟩ := Option.map_eq_some_iff.mp h
    cases he
    exact ⟨hkind, hl⟩
  · cases h

/-- An operator after an operand leaves the operand to wait at the operator's level. -/
theorem standsFor_operator {stack : List (Bracket × Pending)} {p : Pending} {e : Expr} {n : Nat}
    {ts sum product us : List Token} {level : Operator.Precedence} {op : Operator} {lexeme : String}
    (below : StackStandsFor stack ts) (hsum : Waiting IsSum .sum p.sum sum)
    (hproduct : Waiting IsProduct .product p.product product) (operand : IsOperand n us e)
    (hop : op.precedence? = some level) :
    StandsFor (.wantOperand stack (p.operator level op e))
      (ts ++ (sum ++ (product ++ us)) ++ [⟨.operator op, lexeme⟩]) := by
  obtain ⟨k, hjoin⟩ := hproduct.product operand
  rw [List.append_assoc]
  refine .wantOperand below ?_
  -- A sum takes in what waits at the level of products as well.
  cases level with
  | sum =>
    obtain ⟨_, htotal⟩ := hsum.sum hjoin
    have hleft : Waiting IsSum .sum (some (p.total e, op))
        (sum ++ (product ++ us) ++ [⟨.operator op, lexeme⟩]) := .left htotal hop
    exact ⟨_, [], [], by simp, hleft, .nothing, rfl, by simp⟩
  | product =>
    have hleft : Waiting IsProduct .product (some (Pending.join p.product e, op))
        (product ++ us ++ [⟨.operator op, lexeme⟩]) := .left hjoin hop
    exact ⟨sum, _, [], by simp, hsum, hleft, rfl, by simp⟩

/-- Each step extends by its token what an assembly stands for. -/
theorem StandsFor.step {s next : Assembly} {ts : List Token} {t : Token} (h : s.StandsFor ts)
    (hs : s.step t = .ok next) : next.StandsFor (ts ++ [t]) := by
  cases h with
  | wantOperand below level => exact standsFor_operand below level hs
  | @wantOpening stack p ts us f lexeme below level =>
    simp only [Assembly.step] at hs
    split at hs
    · next hk =>
      obtain ⟨kind, l⟩ := t
      cases hk
      cases hs
      simpa using StandsFor.wantArgument below level
    · cases hs
  | @wantArgument stack p ts us f lexeme l below level =>
    simp only [Assembly.step] at hs
    split at hs
    · next hk =>
      obtain ⟨kind, r⟩ := t
      cases hk
      cases hs
      simpa using standsFor_settle below level .emptyCall
    · have hstack : StackStandsFor ((.call f [], p) :: stack)
          (ts ++ us ++ [⟨.function f, lexeme⟩, ⟨.opening, l⟩]) := .call below level
      simpa using standsFor_operand hstack Pending.standsFor_nil hs
  | @wantOperator stack p ts sum product n us e below hsum hproduct operand =>
    simp only [Assembly.step] at hs
    split at hs
    · next level op hj =>
      obtain ⟨kind, lexeme⟩ := t
      obtain ⟨hk, hop⟩ := joining?_eq_some hj
      cases hk
      cases hs
      exact standsFor_operator below hsum hproduct operand hop
    · obtain ⟨k, hjoin⟩ := hproduct.product operand
      exact standsFor_close below (hsum.sum hjoin) hs

theorem StandsFor.foldlM {s last : Assembly} {ts us : List Token} (h : s.StandsFor ts)
    (hs : us.foldlM Assembly.step s = .ok last) : last.StandsFor (ts ++ us) := by
  induction us generalizing s ts with
  | nil =>
    cases hs
    simpa using h
  | cons t us ih =>
    cases ht : s.step t with
    | error cause => simp [ht, bind, Except.bind] at hs
    | ok next =>
      have hrest : us.foldlM Assembly.step next = .ok last := by
        simpa [ht, bind, Except.bind] using hs
      simpa using ih (h.step ht) hrest

/-- An assembly that is complete stands for a sum. -/
theorem StandsFor.finish {s : Assembly} {ts : List Token} {e : Expr} (h : s.StandsFor ts)
    (hs : s.finish = .ok e) : Derives ts e := by
  cases h with
  | wantOperand | wantOpening | wantArgument => cases hs
  | wantOperator below hsum hproduct operand =>
    cases below with
    | nil =>
      cases hs
      obtain ⟨k, hjoin⟩ := hproduct.product operand
      exact hsum.sum hjoin
    | group | call | arguments => cases hs

end Assembly

end RobotHand.Formula
