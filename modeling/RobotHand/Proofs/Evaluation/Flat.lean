import RobotHand.Proofs.Evaluation.Related
import RobotHand.Proofs.Printing.Flat

/-! Formulas without parentheses mean ordinary arithmetic: they have the value of a sum of products,
each taken from left to right. -/
namespace RobotHand.Formula

variable {frame : Frame} {x : EvalError}

namespace Signed

/-- The number with its sign changed once for each minus. -/
def value (a : Signed) : Float := (- ·)^[a.minuses] a.numeral.value

theorem unlimited_tree (a : Signed) : a.tree.unlimited frame = .ok a.value := by
  obtain ⟨minuses, numeral⟩ := a
  simp only [tree, value]
  induction minuses with
  | zero => rw [Pending.negate, Expr.unlimited, Expr.evaluate, Function.iterate_zero_apply]
  | succ n ih =>
    rw [Pending.negate, Expr.unlimited_minus, ih, Function.iterate_succ_apply']
    rfl

end Signed

theorem Expr.unlimited_foldl {α : Type} (op : α → Operator) (part : α → Expr) (l : List α)
    (e : Expr) :
    (l.foldl (fun e a => .binary (op a) e (part a)) e).unlimited frame =
      e.unlimited frame >>= l.foldlM fun total a =>
        (part a).unlimited frame >>= fun v => (op a).apply total v := by
  induction l generalizing e with
  | nil => exact (bind_pure _).symm
  | cons a l ih =>
    rw [List.foldl_cons, ih, Expr.unlimited_binary]
    simp only [List.foldlM_cons, bind_assoc]

namespace Joint

def product (a : Signed) (l : List Joint) : Except EvalError Float :=
  l.foldlM (fun total j => j.op.apply total j.operand.value) a.value

theorem unlimited_productTree (a : Signed) (l : List Joint) :
    (productTree a l).unlimited frame = product a l := by
  rw [productTree, Expr.unlimited_foldl, a.unlimited_tree]
  simp only [Signed.unlimited_tree]
  rfl

theorem apply_eq_error (j : Joint) {a b : Float} (h : j.op.apply a b = .error x) :
    x = .divisionByZero := by
  obtain ⟨op, level, hop, operand⟩ := j
  cases op with
  | other symbol => cases hop
  | divide =>
    rw [Operator.apply] at h
    split at h
    · exact (Except.error.inj h).symm
    · cases h
  | _ => cases h

theorem product_eq_error {a : Signed} {l : List Joint} (h : product a l = .error x) :
    x = .divisionByZero := by
  obtain ⟨-, j, -, total, -, -, hj⟩ := foldlM_eq_error_iff.1 h
  exact j.apply_eq_error hj

end Joint

namespace Flat

/-- Ordinary arithmetic: the operands are cut into products before each operator of a sum, and the
products are joined from left to right. -/
def reference (f : Flat) : Except EvalError Float :=
  let parts := Joint.cut f.rest
  Joint.product f.first parts.1 >>= parts.2.foldlM fun total part =>
    Joint.product part.1.operand part.2 >>= fun v => part.1.op.apply total v

variable (f : Flat)

theorem unlimited_tree : f.tree.unlimited frame = f.reference := by
  rw [tree, Joint.sumTree, Expr.unlimited_foldl]
  simp only [Joint.unlimited_productTree]
  rfl

theorem reference_eq_error (h : f.reference = .error x) : x = .divisionByZero := by
  rcases bind_eq_error_iff.1 h with hfirst | ⟨start, -, hlater⟩
  · exact Joint.product_eq_error hfirst
  · obtain ⟨-, part, -, total, -, -, hpart⟩ := foldlM_eq_error_iff.1 hlater
    rcases bind_eq_error_iff.1 hpart with hproduct | ⟨v, -, hjoin⟩
    · exact Joint.product_eq_error hproduct
    · exact part.1.apply_eq_error hjoin

variable {f} {s : String}

theorem value_eq (h : visible s = f.text) (frame : Frame) : value (some s) frame =
    if nesting f.tokens ≤ nestingLimit then
      (f.tree.evaluate frame nestingLimit).mapError .evaluation
    else .error (.malformed .tooDeep) := by
  rw [value, compile_eq h]
  split <;> rfl

/-- The outcome of a formula without parentheses is that of ordinary arithmetic, unless it is
refused as nested too deeply, which cannot be as long as the depth of its tree is within the limit.
Nothing but a division by zero keeps ordinary arithmetic from having a result. -/
theorem flat_formulas_mean_arithmetic (h : visible s = f.text) (frame : Frame) :
    let outcome := value (some s) frame
    let expected := f.reference.mapError Failure.evaluation
    (outcome = .error (.malformed .tooDeep) ∨ outcome = .error (.evaluation .tooDeep) ∨
        outcome = expected) ∧
      (f.tree.depth ≤ nestingLimit → compile (some s) = .ok f.tree ∧ outcome = expected) ∧
      ∀ x, f.reference = .error x → x = .divisionByZero := by
  intro outcome expected
  have houtcome : outcome = _ := value_eq h frame
  refine ⟨?_, fun hdepth => ?_, fun x => f.reference_eq_error⟩
  · by_cases hnesting : nesting f.tokens ≤ nestingLimit
    · right
      rw [houtcome, if_pos hnesting]
      rcases f.tree.evaluate_eq_tooDeep_or frame nestingLimit with hdeep | hsame
      · exact .inl (by rw [hdeep]; rfl)
      · exact .inr (by rw [hsame, f.unlimited_tree])
    · exact .inl (by rw [houtcome, if_neg hnesting])
  · have hnesting := f.nesting_le_depth.trans hdepth
    rw [houtcome, compile_eq h, if_pos hnesting, if_pos hnesting,
      Expr.evaluate_of_depth_le frame hdepth,
      f.unlimited_tree]
    exact ⟨rfl, rfl⟩

theorem exists_mixed : ∃ f : Flat, visible "8 - --2 * 3 - 1" = f.text ∧
    f.tree.depth ≤ nestingLimit ∧ f.reference = .ok 1 := by
  refine ⟨⟨⟨0, ['8'], none, nofun, List.forall_mem_singleton.2 rfl, List.forall_mem_nil _⟩,
    [⟨.subtract, .sum, rfl, 2,
        ['2'], none, nofun, List.forall_mem_singleton.2 rfl, List.forall_mem_nil _⟩,
      ⟨.multiply, .product, rfl, 0,
        ['3'], none, nofun, List.forall_mem_singleton.2 rfl, List.forall_mem_nil _⟩,
      ⟨.subtract, .sum, rfl, 0,
        ['1'], none, nofun, List.forall_mem_singleton.2 rfl, List.forall_mem_nil _⟩]⟩, ?_⟩
  decide +kernel

/-- The first minus joins two operands, and the next two belong to the second operand. -/
theorem flat_formulas_mean_arithmetic_mixed :
    ∃ f : Flat, visible "8 - --2 * 3 - 1" = f.text ∧ f.tree.depth ≤ nestingLimit ∧
      value (some "8 - --2 * 3 - 1") none = f.reference.mapError .evaluation ∧
      f.reference = .ok 1 := by
  obtain ⟨f, hvisible, hdepth, hreference⟩ := exists_mixed
  obtain ⟨-, hwithin, -⟩ := flat_formulas_mean_arithmetic hvisible none
  exact ⟨f, hvisible, hdepth, (hwithin hdepth).2, hreference⟩

end Flat
end RobotHand.Formula
