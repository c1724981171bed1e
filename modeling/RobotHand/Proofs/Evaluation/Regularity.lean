import RobotHand.Proofs.Control.Gates
import RobotHand.Proofs.Double.Nearest
import RobotHand.Proofs.Evaluation.Strictness
import RobotHand.Proofs.Evaluation.Visibility
import RobotHand.Proofs.Grammar.Openings
import RobotHand.Proofs.Printing.RoundTrip

/-! Trees of formulas hold only what evaluation knows, so that the errors for anything else are
never met: neither while a formula is read nor while its tree is evaluated. -/
namespace RobotHand.Formula

/-- The text of a name, all in ASCII. -/
def IsIdentifier (s : String) : Prop := ∃ x : Name, x.string = s ∧ ∀ c ∈ x.text, c.toNat < 128

theorem Name.isIdentifier (x : Name) : IsIdentifier x.string := by
  refine ⟨x, rfl, fun c hc => ?_⟩
  have hc := x.toNat_of_mem c hc
  omega

/-- An error that no formula leads to. -/
inductive EvalError.IsInternal : EvalError → Prop
  | unknownOperator (symbol : String) : IsInternal (.unknownOperator symbol)
  | unknownNode (kind : String) : IsInternal (.unknownNode kind)

namespace EvalError

/-- The first and the ninth letter of a text, which tell the internal errors from all others. -/
def letters : EvalError → Char × Char
  | divisionByZero => ('D', ' ')
  | unknownOperator _ => ('U', 'o')
  | unknownNode _ => ('U', 'A')
  | unknownVariable _ => ('U', 'v')
  | unknownFunction _ => ('U', 'f')
  | argumentCount .distance => ('d', ' ')
  | argumentCount .rotation => ('r', 'Y')
  | argumentCount .map => ('m', 't')
  | invalidLandmark .. | invalidLandmarks _ => ('I', 'l')
  | collinear => ('L', 's')
  | tooDeep => ('F', 'i')
  | notFinite _ => ('F', 'p')
  | breakdown .emptyRange => ('f', 'v')
  | breakdown .tooLarge | breakdown (.notInteger _) => ('i', 'l')
  | breakdown (.tooManyDigits _) | breakdown .tooLongToWrite => ('E', 't')
  | breakdown .tooLongToWait => ('t', 'p')
  | breakdown .nanToInteger | breakdown .infinityToInteger => ('c', 'o')

/-- A text has these letters at its first and its ninth place. -/
def Starts (s : String) (letters : Char × Char) : Prop :=
  s.toList[0]? = some letters.1 ∧ s.toList[8]? = some letters.2

theorem Starts.append {a : String} {letters : Char × Char} (h : Starts a letters) (b : String) :
    Starts (a ++ b) letters :=
  ⟨getElem?_toList_append a b h.1, getElem?_toList_append a b h.2⟩

theorem Starts.unique {s : String} {letters letters' : Char × Char} (h : Starts s letters)
    (h' : Starts s letters') : letters = letters' := by
  have hfirst := h.1.symm.trans h'.1
  have hninth := h.2.symm.trans h'.2
  rw [Option.some.injEq] at hfirst hninth
  exact Prod.ext hfirst hninth

theorem starts_message (x : EvalError) : Starts x.message x.letters := by
  cases x with
  | divisionByZero | collinear | tooDeep => exact ⟨rfl, rfl⟩
  | argumentCount f => cases f <;> exact ⟨rfl, rfl⟩
  | unknownOperator symbol =>
    have hstart : Starts "Unknown operator: " ('U', 'o') := ⟨rfl, rfl⟩
    exact hstart.append symbol
  | unknownNode kind =>
    have hstart : Starts "Unknown AST node type: " ('U', 'A') := ⟨rfl, rfl⟩
    exact hstart.append kind
  | unknownVariable name =>
    have hstart : Starts "Unknown variable: " ('U', 'v') := ⟨rfl, rfl⟩
    exact hstart.append name
  | unknownFunction name =>
    have hstart : Starts "Unknown function: " ('U', 'f') := ⟨rfl, rfl⟩
    exact hstart.append name
  | invalidLandmark id visible =>
    have hstart : Starts "Invalid landmark ID: " ('I', 'l') := ⟨rfl, rfl⟩
    exact (hstart.append _).append _
  | invalidLandmarks ids =>
    have hstart : Starts "Invalid landmark ID(s): " ('I', 'l') := ⟨rfl, rfl⟩
    exact hstart.append _
  | notFinite value =>
    have hstart : Starts "Formula produced a non-finite value: " ('F', 'p') := ⟨rfl, rfl⟩
    exact hstart.append _
  | breakdown cause =>
    cases cause with
    | tooManyDigits n =>
      have hstart : Starts "Exceeds the limit (" ('E', 't') := ⟨rfl, rfl⟩
      exact (((hstart.append _).append _).append _).append _
    | tooLongToWrite =>
      have hstart : Starts "Exceeds the limit (" ('E', 't') := ⟨rfl, rfl⟩
      exact (hstart.append _).append _
    | notInteger quoted =>
      have hstart : Starts "invalid literal for int() with base 10: " ('i', 'l') := ⟨rfl, rfl⟩
      exact hstart.append _
    | _ => exact ⟨rfl, rfl⟩

/-- No other error has the text of an internal one. -/
theorem isInternal_of_message {x y : EvalError} (hy : y.IsInternal) (h : x.message = y.message) :
    x.IsInternal := by
  -- Equal texts have equal letters, and only internal errors have those two.
  have hsame : x.letters = y.letters := (h ▸ x.starts_message).unique y.starts_message
  have hletters : x.letters ∈ [('U', 'o'), ('U', 'A')] := by
    rw [hsame]
    cases hy <;> simp [letters]
  cases x with
  | unknownOperator symbol => exact .unknownOperator symbol
  | unknownNode kind => exact .unknownNode kind
  | argumentCount f => cases f <;> simp [letters] at hletters
  | breakdown cause => cases cause <;> simp [letters] at hletters
  | _ => simp [letters] at hletters

end EvalError

theorem Builtin.measure_eq_error {f : Builtin} {ps : List Point} {x : EvalError}
    (h : f.measure ps = .error x) : x = .collinear ∨ x = .argumentCount f := by
  unfold measure at h
  split at h
  · cases h
  · split at h <;> cases h
    exact .inl rfl
  · cases h
    exact .inr rfl

namespace Expr

/-- A node as formulas have it, apart from its operands: numbers are neither negative nor NaNs,
names are identifiers in ASCII, and minus is the only sign. -/
def IsRegular : Expr → Prop
  | .number v => Binary64.ofFloat v ≠ .nan ∧ 0 ≤ v
  | .variable name | .call name _ => IsIdentifier name
  | .unary op _ => op = .subtract
  | .binary op _ _ => op ∈ [.add, .subtract, .multiply, .divide]
  | .unknown _ => False

variable {e n : Expr} {frame : Frame} {room : Nat} {vs : List Float} {x : EvalError}

theorem forall_postorder_iff {p : Expr → Prop} :
    (∀ n ∈ e.postorder, p n) ↔ (∀ o ∈ e.operands, ∀ n ∈ o.postorder, p n) ∧ p e := by
  rw [postorder_eq, List.forall_mem_append, List.forall_mem_singleton, List.forall_mem_flatMap]

/-- A regular node knows its own operation. -/
theorem IsRegular.not_isInternal (hn : n.IsRegular) (h : Fails frame n vs x) : ¬ x.IsInternal := by
  cases h with
  | invalidLandmark _ _ _ hplace =>
    obtain ⟨visible, rfl⟩ := place_eq_error hplace
    intro h
    cases h
  | unknownSign hop => exact absurd hn hop
  | unknownOperator => simp [IsRegular] at hn
  | noMeasure _ _ _ hmeasure =>
    obtain rfl | rfl := Builtin.measure_eq_error hmeasure
    all_goals
      intro h
      cases h
  | unknownNode => exact absurd hn id
  | _ =>
    intro h
    cases h

/-- A tree of regular nodes fails only with errors that formulas lead to. -/
theorem not_isInternal_of_evaluate (h : ∀ n ∈ e.postorder, n.IsRegular)
    (hx : e.evaluate frame room = .error x) : ¬ x.IsInternal := by
  induction e using operand_induction generalizing room with
  | h e ih =>
    obtain ⟨hoperands, hroot⟩ := forall_postorder_iff.1 h
    have hsign : ¬ e.HasUnknownSign := fun h => by
      cases e with
      | unary op o => exact h hroot
      | _ => exact h
    by_cases hroom : room < e.weight
    · cases (evaluate_eq_tooDeep hsign hroom).symm.trans hx
      intro h
      cases h
    · obtain ⟨below, rfl⟩ := Nat.exists_eq_add_of_le' (Nat.le_of_not_lt hroom)
      rcases (evaluate_node_eq_error_iff hsign).1 hx with hmap | ⟨vs, -, hfails⟩
      · obtain ⟨before, o, after, heq, -, ho⟩ := mapM_eq_error_iff.1 hmap
        have hmem : o ∈ e.operands := heq ▸ List.mem_append_right _ List.mem_cons_self
        exact ih o hmem (hoperands o hmem) ho
      · exact hroot.not_isInternal hfails

end Expr

namespace Script

mutual

/-- All nodes in the tree of a script are regular. -/
theorem isRegular (s : Script) : ∀ n ∈ s.tree.postorder, n.IsRegular := by
  rw [Expr.forall_postorder_iff]
  match s with
  | .number n =>
    rw [tree]
    exact ⟨List.forall_mem_nil _, (Decimal.ofFloat_toFloat _ _).2⟩
  | .variable x =>
    rw [tree]
    exact ⟨List.forall_mem_nil _, x.isIdentifier⟩
  | .minus e =>
    rw [tree]
    exact ⟨List.forall_mem_singleton.2 e.isRegular, rfl⟩
  | .join op h a b =>
    have hop : op ∈ [.add, .subtract, .multiply, .divide] := by
      cases op with
      | other s => cases h
      | _ => decide
    rw [tree]
    exact ⟨List.forall_mem_cons.2 ⟨a.isRegular, List.forall_mem_singleton.2 b.isRegular⟩, hop⟩
  | .call f es =>
    rw [tree]
    exact ⟨areRegular es, f.isIdentifier⟩

theorem areRegular (es : List Script) : ∀ e ∈ trees es, ∀ n ∈ e.postorder, n.IsRegular := by
  match es with
  | [] =>
    rw [trees]
    exact List.forall_mem_nil _
  | e :: es =>
    rw [trees]
    exact List.forall_mem_cons.2 ⟨e.isRegular, areRegular es⟩

end

end Script

theorem compile_ne_missingOpening {text : String} {failure : Failure}
    (h : compile (some text) = .error failure) (f : String) :
    failure.message ≠ (Malformed.missingOpening f).message := by
  intro hmessage
  rcases compile_cases (some text) with ⟨-, hc⟩ | ⟨-, cause, hparse, hc⟩ | ⟨-, e, -, hc⟩
  · cases hc.symm.trans h
    have hletter := (Malformed.missingOpening f).letter_message
    rw [← hmessage, Malformed.letter] at hletter
    exact absurd hletter (by decide)
  · cases hc.symm.trans h
    obtain rfl := Malformed.message_injective hmessage
    rw [parse, Expr.ofTokensWithin_eq] at hparse
    split at hparse
    · exact (opened_scan _).ofTokens_ne f hparse
    · cases hparse
  · cases hc.symm.trans h

/-- What may go wrong inside never does. A function name among the tokens of a formula is followed
by its parenthesis, so that none is missed when the formula is compiled; and a tree that compiles
has regular nodes only, so that its evaluation finds neither an unknown operator nor an unknown
node, on whatever frame. -/
theorem internal_errors_are_unreachable (text : String) :
    (∀ i f lexeme, (tokens text)[i]? = some ⟨.function f, lexeme⟩ →
        (tokens text)[i + 1]? = some ⟨.opening, "("⟩) ∧
      (∀ failure f, compile (some text) = .error failure →
        failure.message ≠ "Expected '(' after function name '" ++ f ++ "'") ∧
      ∀ e, compile (some text) = .ok e →
        (∀ n ∈ e.postorder, n.IsRegular) ∧
          ∀ frame room x s, e.evaluate frame room = .error x →
            x.message ≠ "Unknown operator: " ++ s ∧ x.message ≠ "Unknown AST node type: " ++ s := by
  refine ⟨opened_scan _, fun failure f h => compile_ne_missingOpening h f, fun e he => ?_⟩
  obtain ⟨script, rfl⟩ := exists_script_of_compile he
  refine ⟨script.isRegular, fun frame room x s hx => ?_⟩
  have hknown := Expr.not_isInternal_of_evaluate script.isRegular hx
  exact ⟨fun h => hknown (EvalError.isInternal_of_message (.unknownOperator s) h),
    fun h => hknown (EvalError.isInternal_of_message (.unknownNode s) h)⟩

end RobotHand.Formula
