import RobotHand.Formula.Evaluation
import RobotHand.Proofs.Outcomes

/-! Evaluation node by node: the trees below a node, the room that it takes, and what it makes of
the values of its operands. -/
namespace RobotHand.Formula.Expr

variable {e o : Expr} {frame : Frame} {below room : Nat}

def operands : Expr → List Expr
  | .number _ | .variable _ | .unknown _ => []
  | .unary _ operand => [operand]
  | .binary _ left right => [left, right]
  | .call _ arguments => arguments

def weight : Expr → Nat
  | .number _ | .variable _ | .unknown _ => 0
  | .unary .. | .binary .. => 1
  | .call .. => 2

/-- A sign other than the minus, which no formula has. -/
def HasUnknownSign : Expr → Prop
  | .unary op _ => op ≠ .subtract
  | _ => False

/-- What a node makes of the values of its operands. -/
def operate (frame : Frame) : Expr → List Float → Except EvalError Float
  | .number v, _ => .ok v
  | .variable name, _ => variableValue name frame
  | .unary op _, values =>
    match op, values with
    | .subtract, [v] => .ok (-v)
    | _, _ => .error (.unknownNode "Unary")
  | .binary op _ _, values =>
    match values with
    | [a, b] => op.apply a b
    | _ => .error (.unknownNode "Binary")
  | .call name _, values => Formula.call name values frame
  | .unknown kind, _ => .error (.unknownNode kind)

theorem sizeOf_lt_of_mem_operands (h : o ∈ e.operands) : sizeOf o < sizeOf e := by
  cases e with
  | unary op operand =>
    rw [List.mem_singleton.1 h, unary.sizeOf_spec]
    omega
  | binary op left right =>
    rw [binary.sizeOf_spec]
    rcases List.mem_pair.1 h with rfl | rfl <;> omega
  | call name arguments =>
    have hlt := List.sizeOf_lt_of_mem h
    rw [call.sizeOf_spec]
    simp only [operands] at hlt
    omega
  | _ => exact absurd h List.not_mem_nil

/-- What every node inherits from the trees right below it holds of every tree. -/
theorem operand_induction {p : Expr → Prop} (h : ∀ e, (∀ o ∈ e.operands, p o) → p e) (e : Expr) :
    p e :=
  h e fun o _ => operand_induction h o
termination_by sizeOf e
decreasing_by exact sizeOf_lt_of_mem_operands ‹_›

mutual

/-- The weight of the heaviest path from the root of a tree. -/
def depth : Expr → Nat
  | .number _ | .variable _ | .unknown _ => 0
  | .unary _ operand => operand.depth + 1
  | .binary _ left right => max left.depth right.depth + 1
  | .call _ arguments => depthOfAll arguments + 2

def depthOfAll : List Expr → Nat
  | [] => 0
  | e :: es => max e.depth (depthOfAll es)

end

theorem depthOfAll_le_iff {es : List Expr} : depthOfAll es ≤ room ↔ ∀ e ∈ es, e.depth ≤ room := by
  induction es with
  | nil => simp [depthOfAll]
  | cons e es ih => rw [depthOfAll, max_le_iff, ih, List.forall_mem_cons]

theorem depthOfAll_append (es es' : List Expr) :
    depthOfAll (es ++ es') = max (depthOfAll es) (depthOfAll es') := by
  induction es with
  | nil => simp [depthOfAll]
  | cons e es ih => rw [List.cons_append, depthOfAll, depthOfAll, ih, max_assoc]

/-- There is room for a tree if there is room for its root and, below, for each operand. -/
theorem depth_le_iff :
    e.depth ≤ room ↔ ∃ below, room = below + e.weight ∧ ∀ o ∈ e.operands, o.depth ≤ below := by
  have hroom : ∀ depth weight, depth + weight ≤ room ↔
      ∃ below, room = below + weight ∧ depth ≤ below := fun depth weight =>
    ⟨fun h => ⟨room - weight, by omega, by omega⟩, fun ⟨below, hroom, h⟩ => by omega⟩
  cases e with
  | unary op operand =>
    rw [depth, hroom]
    simp [weight, operands]
  | binary op left right =>
    rw [depth, hroom]
    simp [weight, operands]
  | call name arguments =>
    rw [depth, hroom]
    simp only [depthOfAll_le_iff, weight, operands]
  | _ => simp [depth, weight, operands]

theorem evaluateAll_eq_mapM (es : List Expr) :
    evaluateAll frame room es = es.mapM (evaluate frame room) := by
  induction es with
  | nil => rw [evaluateAll, List.mapM_nil]; rfl
  | cons e es ih => rw [evaluateAll, List.mapM_cons, ih]

theorem descend_add (weight below : Nat) : descend weight (below + weight) = .ok below := by
  rw [descend, if_neg (by omega), Nat.add_sub_cancel]

theorem evaluate_of_hasUnknownSign (h : e.HasUnknownSign) :
    e.evaluate frame room = .error (.unknownNode "Unary") := by
  cases e with
  | unary op operand => rw [evaluate, if_neg h]
  | _ => exact False.elim h

theorem operate_of_hasUnknownSign (h : e.HasUnknownSign) (values : List Float) :
    e.operate frame values = .error (.unknownNode "Unary") := by
  cases e with
  | unary op operand =>
    cases op with
    | subtract => exact absurd rfl h
    | _ => rfl
  | _ => exact False.elim h

/-- Without room for its root, a tree is nested too deeply. -/
theorem evaluate_eq_tooDeep (h : ¬ e.HasUnknownSign) (hroom : room < e.weight) :
    e.evaluate frame room = .error .tooDeep := by
  have hdescend : ∀ weight, room < weight → descend weight room = .error .tooDeep :=
    fun weight hlt => if_pos hlt
  cases e with
  | unary op operand =>
    obtain rfl := Decidable.not_not.1 h
    rw [evaluate, if_pos rfl, hdescend 1 hroom]
    rfl
  | binary op left right =>
    rw [evaluate, hdescend 1 hroom]
    rfl
  | call name arguments =>
    rw [evaluate, hdescend 2 hroom]
    rfl
  | _ => exact absurd hroom (Nat.not_lt_zero room)

/-- Operands are evaluated from left to right, and then the node makes something of their values. -/
theorem evaluate_eq_operate (h : ¬ e.HasUnknownSign) : e.evaluate frame (below + e.weight) =
    e.operands.mapM (evaluate frame below) >>= e.operate frame := by
  cases e with
  | number v => rw [evaluate]; rfl
  | «variable» name => rw [evaluate]; rfl
  | unary op operand =>
    obtain rfl := Decidable.not_not.1 h
    rw [operands, List.mapM_cons, List.mapM_nil, weight, evaluate, if_pos rfl, descend_add]
    simp only [bind_assoc, pure_bind]
    rfl
  | binary op left right =>
    rw [operands, List.mapM_cons, List.mapM_cons, List.mapM_nil, weight, evaluate, descend_add]
    simp only [bind_assoc, pure_bind]
    rfl
  | call name arguments =>
    rw [operands, weight, evaluate, descend_add, ← evaluateAll_eq_mapM]
    rfl
  | unknown kind => rw [evaluate]; rfl

end RobotHand.Formula.Expr
