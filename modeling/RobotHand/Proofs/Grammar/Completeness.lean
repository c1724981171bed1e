import RobotHand.Proofs.Grammar.Basic

/-! Assembly reads every derivation to its tree, and the greatest depth that it reaches on the way
is the nesting of the derivation. -/
namespace RobotHand.Formula

@[simp] theorem Pending.join_none (e : Expr) : join none e = e := rfl

@[simp] theorem Pending.join_some (left : Expr) (op : Operator) (e : Expr) :
    join (some (left, op)) e = .binary op left e := rfl

theorem Pending.negate_unary (n : Nat) (e : Expr) :
    negate n (.unary .subtract e) = .unary .subtract (negate n e) := by
  induction n with
  | zero => rfl
  | succ n ih => rw [negate, ih, negate]

namespace Assembly

/-- The weight of the open parentheses and of the minus signs before them. -/
def height (stack : List (Bracket × Pending)) : Nat :=
  stack.foldr (fun (b, outer) below => weight b + outer.minuses + below) 0

@[simp] theorem height_nil : height [] = 0 := rfl

@[simp] theorem height_cons (b : Bracket) (p : Pending) (stack : List (Bracket × Pending)) :
    height ((b, p) :: stack) = weight b + p.minuses + height stack := rfl

theorem foldr_weight (stack : List (Bracket × Pending)) (n : Nat) :
    stack.foldr (fun (b, outer) below => weight b + outer.minuses + below) n =
      height stack + n := by
  induction stack with
  | nil => simp
  | cons top stack ih =>
    obtain ⟨b, p⟩ := top
    simp only [List.foldr_cons, height_cons, ih]
    omega

@[simp] theorem depth_wantOperand (stack : List (Bracket × Pending)) (p : Pending) :
    (wantOperand stack p).depth = height stack + p.minuses := foldr_weight stack p.minuses

@[simp] theorem depth_wantOpening (f : String) (stack : List (Bracket × Pending)) (p : Pending) :
    (wantOpening f stack p).depth = height stack + p.minuses := foldr_weight stack p.minuses

@[simp] theorem depth_wantArgument (f : String) (stack : List (Bracket × Pending)) (p : Pending) :
    (wantArgument f stack p).depth = height stack + p.minuses := foldr_weight stack p.minuses

@[simp] theorem depth_wantOperator (stack : List (Bracket × Pending)) (p : Pending) (e : Expr) :
    (wantOperator stack p e).depth = height stack + p.minuses := foldr_weight stack p.minuses

@[simp] theorem depth_settle (stack : List (Bracket × Pending)) (p : Pending) (e : Expr) :
    (settle stack p e).depth = height stack := by simp [settle]

theorem settle_minus (stack : List (Bracket × Pending)) (p : Pending) (e : Expr) :
    settle stack { p with minuses := p.minuses + 1 } e = settle stack p (.unary .subtract e) := by
  simp [settle, Pending.negate, Pending.negate_unary]

/-- What an operand begins with closes no parenthesis. -/
theorem height_le_depth_operand {stack : List (Bracket × Pending)} {p : Pending} {t : Token}
    {s : Assembly} (h : operand stack p t = .ok s) : height stack ≤ s.depth := by
  unfold operand at h
  split at h <;> cases h <;> simp

/-- The greatest depth that is reached while tokens are read, up to the first that is refused. -/
def peak (s : Assembly) : List Token → Nat
  | [] => s.depth
  | t :: ts =>
    match s.step t with
    | .ok next => max s.depth (peak next ts)
    | .error _ => s.depth

theorem depth_le_peak (s : Assembly) (ts : List Token) : s.depth ≤ s.peak ts := by
  cases ts with
  | nil => exact Nat.le_refl _
  | cons t ts =>
    unfold peak
    split
    · exact Nat.le_max_left _ _
    · exact Nat.le_refl _

/-- A limit matters only where the peak is above it. -/
theorem foldlM_stepWithin {limit : Nat} (ts : List Token) {s : Assembly} (hs : s.depth ≤ limit) :
    ts.foldlM (stepWithin limit) s =
      if s.peak ts ≤ limit then ts.foldlM step s else .error .tooDeep := by
  induction ts generalizing s with
  | nil => simp [peak, hs]
  | cons t ts ih =>
    simp only [List.foldlM_cons, stepWithin, peak]
    cases hstep : s.step t with
    | error cause => simp [hs, bind, Except.bind]
    | ok next =>
      simp only [bind, Except.bind]
      by_cases hn : next.depth ≤ limit
      · have hmax : max s.depth (next.peak ts) ≤ limit ↔ next.peak ts ≤ limit := by omega
        simp only [Nat.not_lt.mpr hn, if_false, hmax]
        exact ih hn
      · have hpeak := next.depth_le_peak ts
        have hmax : ¬ max s.depth (next.peak ts) ≤ limit := by omega
        simp only [Nat.not_le.mp hn, if_true, hmax, if_false]

/-- Tokens lead from one assembly to another and reach a depth on the way. -/
def Reads (s : Assembly) (ts : List Token) (n : Nat) (next : Assembly) : Prop :=
  ts.foldlM step s = .ok next ∧ s.peak ts = n

theorem Reads.cast {s next : Assembly} {ts : List Token} {m n : Nat} (h : Reads s ts m next)
    (hn : m = n) : Reads s ts n next := hn ▸ h

theorem Reads.nil (s : Assembly) : Reads s [] s.depth s := ⟨rfl, rfl⟩

theorem Reads.cons {s next last : Assembly} {t : Token} {ts : List Token} {n : Nat}
    (ht : s.step t = .ok next) (h : Reads next ts n last) :
    Reads s (t :: ts) (max s.depth n) last := by
  obtain ⟨hr, hp⟩ := h
  constructor
  · simpa [ht, bind, Except.bind] using hr
  · simp only [peak, ht, hp]

theorem Reads.append {s next last : Assembly} {ts us : List Token} {m n : Nat}
    (h : Reads s ts m next) (h' : Reads next us n last) :
    Reads s (ts ++ us) (max m n) last := by
  induction ts generalizing s m with
  | nil =>
    obtain ⟨hr, rfl⟩ := h
    obtain rfl : s = next := Except.ok.inj hr
    have hd := s.depth_le_peak us
    rw [h'.2] at hd
    have hm : max (s.peak []) n = n := Nat.max_eq_right hd
    rw [hm]
    exact h'
  | cons t ts ih =>
    obtain ⟨hr, hp⟩ := h
    cases ht : s.step t with
    | error cause => simp [ht, bind, Except.bind] at hr
    | ok middle =>
      have hread : Reads middle ts (middle.peak ts) next := by
        refine ⟨?_, rfl⟩
        simpa [ht, bind, Except.bind] using hr
      have hall := Reads.cons ht (ih hread)
      simp only [peak, ht] at hp
      rw [← hp, Nat.max_assoc]
      exact hall

/-- The opening parenthesis of a call weighs from its first argument on. -/
theorem Reads.argument {f : String} {stack : List (Bracket × Pending)} {p q : Pending} {n : Nat}
    {ts : List Token} {top : List (Bracket × Pending)} {e : Expr}
    (h : Reads (.wantOperand ((.call f [], p) :: stack) {}) ts n (.wantOperator top q e)) :
    Reads (.wantArgument f stack p) ts n (.wantOperator top q e) := by
  obtain ⟨hr, hp⟩ := h
  cases ts with
  | nil => cases hr
  | cons t ts =>
    cases ht : operand ((.call f [], p) :: stack) {} t with
    | error cause => simp [step, ht, bind, Except.bind] at hr
    | ok next =>
      have hkind : t.kind ≠ .closing := by
        intro hk
        simp [operand, hk] at ht
      have hstep : step (.wantArgument f stack p) t = .ok next := by simp [step, hkind, ht]
      have hnext := height_le_depth_operand ht
      have hpeak := next.depth_le_peak ts
      constructor
      · rw [List.foldlM_cons, hstep]
        simpa [step, ht, bind, Except.bind] using hr
      · simp only [peak, hstep]
        simp only [peak, step, ht] at hp
        simp only [depth_wantOperand, depth_wantArgument, height_cons, weight] at hp hnext ⊢
        omega

end Assembly

mutual

/-- A sum leaves an operator to follow, with its tree complete but for what still binds tighter. -/
theorem IsSum.reads {n : Nat} {ts : List Token} {e : Expr} (h : IsSum n ts e)
    (stack : List (Bracket × Pending)) :
    ∃ q v, Assembly.Reads (.wantOperand stack {}) ts (Assembly.height stack + n)
      (.wantOperator stack q v) ∧ q.minuses = 0 ∧ q.total v = e := by
  match h with
  | .product h =>
    obtain ⟨q, v, hread, hm, hsum, hjoin⟩ := h.reads stack {} rfl rfl
    refine ⟨q, v, hread, hm, ?_⟩
    rw [Pending.total, hsum, hjoin, Pending.join_none]
  | @IsSum.join _ _ _ _ _ _ op lexeme left level right =>
    obtain ⟨q, v, hleft, hm, htotal⟩ := left.reads stack
    obtain ⟨q', v', hright, hm', hsum, hjoin⟩ :=
      right.reads stack { sum := some (q.total v, op) } rfl rfl
    have hop : Assembly.step (.wantOperator stack q v) ⟨.operator op, lexeme⟩ =
        .ok (.wantOperand stack { sum := some (q.total v, op) }) := by
      simp [Assembly.step, Assembly.joining?, level, Pending.operator]
    refine ⟨q', v', ?_, hm', ?_⟩
    · have hread := hleft.append (.cons hop hright)
      simpa [hm, Nat.add_max_add_left] using hread
    · rw [Pending.total, hsum, hjoin, Pending.join_some, htotal]

theorem IsProduct.reads {n : Nat} {ts : List Token} {e : Expr} (h : IsProduct n ts e)
    (stack : List (Bracket × Pending)) (p : Pending) (hp : p.product = none)
    (hm : p.minuses = 0) :
    ∃ q v, Assembly.Reads (.wantOperand stack p) ts (Assembly.height stack + n)
      (.wantOperator stack q v) ∧ q.minuses = 0 ∧ q.sum = p.sum ∧ Pending.join q.product v = e := by
  match h with
  | .operand h =>
    have hread := h.reads stack p
    refine ⟨{ p with minuses := 0 }, e, ?_, rfl, rfl, ?_⟩
    · simpa [Assembly.settle, hm, Pending.negate] using hread
    · simp [hp]
  | @IsProduct.join _ _ _ _ _ b op lexeme left level right =>
    obtain ⟨q, v, hleft, hm', hsum, hjoin⟩ := left.reads stack p hp hm
    have hright := right.reads stack
      { sum := q.sum, product := some (Pending.join q.product v, op) }
    have hop : Assembly.step (.wantOperator stack q v) ⟨.operator op, lexeme⟩ =
        .ok (.wantOperand stack
          { sum := q.sum, product := some (Pending.join q.product v, op) }) := by
      simp [Assembly.step, Assembly.joining?, level, Pending.operator]
    refine ⟨{ sum := q.sum, product := some (Pending.join q.product v, op) }, b, ?_, rfl, hsum, ?_⟩
    · have hread := hleft.append (.cons hop hright)
      simpa [hm', Nat.add_max_add_left, Assembly.settle, Pending.negate] using hread
    · rw [hjoin, Pending.join_some]

theorem IsOperand.reads {n : Nat} {ts : List Token} {e : Expr} (h : IsOperand n ts e)
    (stack : List (Bracket × Pending)) (p : Pending) :
    Assembly.Reads (.wantOperand stack p) ts (Assembly.height stack + p.minuses + n)
      (Assembly.settle stack p e) := by
  match h with
  | @IsOperand.number v lexeme =>
    have hstep : Assembly.step (.wantOperand stack p) ⟨.number (some v), lexeme⟩ =
        .ok (Assembly.settle stack p (.number v)) := rfl
    simpa using Assembly.Reads.cons hstep (.nil _)
  | @IsOperand.group n ts e l r h =>
    obtain ⟨q, v, hread, hm, htotal⟩ := h.reads ((.group, p) :: stack)
    have hopen : Assembly.step (.wantOperand stack p) ⟨.opening, l⟩ =
        .ok (.wantOperand ((.group, p) :: stack) {}) := rfl
    have hclose : Assembly.step (.wantOperator ((.group, p) :: stack) q v) ⟨.closing, r⟩ =
        .ok (Assembly.settle stack p e) := by
      simp [Assembly.step, Assembly.joining?, Assembly.close, htotal]
    have hall := Assembly.Reads.cons hopen (hread.append (.cons hclose (.nil _)))
    refine hall.cast ?_
    simp only [Assembly.depth_wantOperand, Assembly.depth_wantOperator, Assembly.depth_settle,
      Assembly.height_cons, hm]
    omega
  | @IsOperand.call n ts es f lexeme l r h =>
    obtain ⟨front, q, v, hread, hm, rfl⟩ := h.reads f p stack
    have hname : Assembly.step (.wantOperand stack p) ⟨.function f, lexeme⟩ =
        .ok (.wantOpening f stack p) := rfl
    have hopen : Assembly.step (.wantOpening f stack p) ⟨.opening, l⟩ =
        .ok (.wantArgument f stack p) := rfl
    have hclose : Assembly.step (.wantOperator ((.call f front, p) :: stack) q v) ⟨.closing, r⟩ =
        .ok (Assembly.settle stack p (.call f (front ++ [q.total v]))) := by
      simp [Assembly.step, Assembly.joining?, Assembly.close]
    have hall := Assembly.Reads.cons hname
      (.cons hopen (hread.argument.append (.cons hclose (.nil _))))
    refine hall.cast ?_
    simp only [Assembly.depth_wantOperand, Assembly.depth_wantOperator, Assembly.depth_settle,
      Assembly.depth_wantOpening, Assembly.height_cons, Assembly.weight, hm]
    omega
  | @IsOperand.emptyCall f lexeme l r =>
    have hname : Assembly.step (.wantOperand stack p) ⟨.function f, lexeme⟩ =
        .ok (.wantOpening f stack p) := rfl
    have hopen : Assembly.step (.wantOpening f stack p) ⟨.opening, l⟩ =
        .ok (.wantArgument f stack p) := rfl
    have hclose : Assembly.step (.wantArgument f stack p) ⟨.closing, r⟩ =
        .ok (Assembly.settle stack p (.call f [])) := rfl
    simpa using Assembly.Reads.cons hname (.cons hopen (.cons hclose (.nil _)))
  | @IsOperand.variable x lexeme =>
    have hstep : Assembly.step (.wantOperand stack p) ⟨.variable x, lexeme⟩ =
        .ok (Assembly.settle stack p (.variable x)) := rfl
    simpa using Assembly.Reads.cons hstep (.nil _)
  | @IsOperand.minus n ts e lexeme h =>
    have hstep : Assembly.step (.wantOperand stack p) ⟨.operator .subtract, lexeme⟩ =
        .ok (.wantOperand stack { p with minuses := p.minuses + 1 }) := rfl
    -- The sign waits with the others, and is put before the operand when that settles.
    have hread := h.reads stack { p with minuses := p.minuses + 1 }
    rw [Assembly.settle_minus] at hread
    refine (Assembly.Reads.cons hstep hread).cast ?_
    simp only [Assembly.depth_wantOperand]
    omega

theorem IsArguments.reads {n : Nat} {ts : List Token} {es : List Expr} (h : IsArguments n ts es)
    (f : String) (p : Pending) (stack : List (Bracket × Pending)) :
    ∃ front q v, Assembly.Reads (.wantOperand ((.call f [], p) :: stack) {}) ts
      (Assembly.height ((.call f [], p) :: stack) + n)
      (.wantOperator ((.call f front, p) :: stack) q v) ∧ q.minuses = 0 ∧
      es = front ++ [q.total v] := by
  match h with
  | .first h =>
    obtain ⟨q, v, hread, hm, htotal⟩ := h.reads ((.call f [], p) :: stack)
    exact ⟨[], q, v, hread, hm, by rw [htotal, List.nil_append]⟩
  | @IsArguments.next _ _ _ _ es e lexeme front last =>
    obtain ⟨done, q, v, hfront, hm, hes⟩ := front.reads f p stack
    obtain ⟨q', v', hlast, hm', htotal⟩ := last.reads ((.call f es, p) :: stack)
    have hcomma : Assembly.step (.wantOperator ((.call f done, p) :: stack) q v)
        ⟨.comma, lexeme⟩ = .ok (.wantOperand ((.call f es, p) :: stack) {}) := by
      simp [Assembly.step, Assembly.joining?, Assembly.close, hes]
    refine ⟨es, q', v', ?_, hm', by rw [htotal]⟩
    have hread := hfront.append (.cons hcomma hlast)
    refine hread.cast ?_
    simp only [Assembly.depth_wantOperator, Assembly.height_cons, Assembly.weight, hm]
    omega

end

end RobotHand.Formula
