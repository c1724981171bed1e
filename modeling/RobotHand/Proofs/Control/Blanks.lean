import RobotHand.Control.Steering
import RobotHand.Proofs.Printing.Separators

/-! Blanks mean nothing, wherever they stand: all that is made of a formula rests on its visible
characters. -/
namespace RobotHand

/-- A list is trimmed to nothing exactly if every element of it may go. -/
theorem trimWhere_eq_nil_iff {α : Type} {p : α → Bool} {l : List α} :
    trimWhere p l = [] ↔ ∀ x ∈ l, p x := by
  rw [trimWhere, List.reverse_eq_nil_iff, List.dropWhile_eq_nil_iff]
  simp only [List.mem_reverse]
  constructor
  · intro h
    rw [← List.dropWhile_eq_nil_iff]
    by_contra hne
    have hhead := List.head_dropWhile_not p hne
    rw [h _ (List.head_mem hne)] at hhead
    cases hhead
  · intro h x hx
    exact h x ((List.dropWhile_suffix p).mem hx)

namespace Formula

variable {s s' : String}

theorem isBlankText_iff : isBlankText s ↔ visible s = [] := by
  simp [isBlankText, visible]

theorem isBlank_iff_trimWhere : isBlank (some s) ↔ trimWhere isBlankChar s.toList = [] := by
  rw [trimWhere_eq_nil_iff]
  exact List.all_eq_true

theorem isBlankText_congr (h : visible s = visible s') : isBlankText s = isBlankText s' := by
  rw [Bool.eq_iff_iff, isBlankText_iff, isBlankText_iff, h]

theorem parse_congr (h : visible s = visible s') : parse s = parse s' := by
  rw [parse, parse, tokens_eq_scan, tokens_eq_scan, h]

theorem compile_congr (h : visible s = visible s') : compile (some s) = compile (some s') := by
  rw [compile, compile, isBlankText_congr h, parse_congr h]

theorem validate_congr (h : visible s = visible s') : validate (some s) = validate (some s') := by
  rw [validate, validate, isBlank, isBlank, isBlankText_congr h, Option.getD_some, Option.getD_some,
    parse_congr h]

/-- Formulas with the same visible characters have the same outcome everywhere: they are blank,
compile, pass and are stored alike, and have the same values, positions and errors. A formula is
blank if nothing is left of it once it is trimmed, that is if nothing of it is visible. -/
theorem blanks_are_never_significant (h : visible s = visible s') :
    (isBlank (some s) ↔ trimWhere isBlankChar s.toList = []) ∧
      (isBlank (some s) ↔ visible s = []) ∧
      isBlank (some s) = isBlank (some s') ∧
      tokens s = tokens s' ∧
      validate (some s) = validate (some s') ∧
      errorMessage? (some s) = errorMessage? (some s') ∧
      compile (some s) = compile (some s') ∧
      (∀ frame, value (some s) frame = value (some s') frame) ∧
      (∀ frame low high, position (some s) frame low high = position (some s') frame low high) ∧
      ∀ (c : Control) servo, (c.updateFormula servo s).result =
        (c.updateFormula servo s').result := by
  have hblank : isBlank (some s) = isBlank (some s') := isBlankText_congr h
  have hvalue : ∀ frame, value (some s) frame = value (some s') frame := fun frame => by
    rw [value, value, compile_congr h]
  refine ⟨isBlank_iff_trimWhere, isBlankText_iff, hblank, congrArg scan h, validate_congr h, ?_,
    compile_congr h, hvalue, fun frame low high => ?_, fun c servo => ?_⟩
  · rw [errorMessage?, errorMessage?, hblank, Option.getD_some, Option.getD_some, parse_congr h]
  · rw [position, position, hvalue]
  · rw [Control.updateFormula, Control.updateFormula, isBlankText_congr h, validate_congr h]
    split
    · cases servo.resolve <;> rfl
    · rfl

/-- Blanks within numbers, within names and between tokens. -/
theorem blanks_are_never_significant_spread :
    visible "\t1 0.\u00a05*m\u3000ap(L [0].\nx,1 2)" = visible "10.5*map(L[0].x,12)" ∧
      compile (some "\t1 0.\u00a05*m\u3000ap(L [0].\nx,1 2)") =
        compile (some "10.5*map(L[0].x,12)") := by
  have h : visible "\t1 0.\u00a05*m\u3000ap(L [0].\nx,1 2)" = visible "10.5*map(L[0].x,12)" := by
    decide
  obtain ⟨-, -, -, -, -, -, hcompile, -⟩ := blanks_are_never_significant h
  exact ⟨h, hcompile⟩

end Formula
end RobotHand
