import RobotHand.Control.Steering
import RobotHand.Proofs.Grammar.Parsing
import RobotHand.Proofs.Outcomes
import RobotHand.Proofs.Tables

/-! Which formulas are let through where formulas are checked, compiled, evaluated and stored. -/
namespace RobotHand.Formula

variable {formula : Option String} {text : String} {e : Expr} {failure : Failure} {frame : Frame}
  {low high : Int}

theorem compile_of_isBlank (h : isBlank formula) : compile formula = .error .empty := by
  cases formula with
  | none => rfl
  | some text => exact if_pos h

theorem compile_of_not_isBlank (h : ¬ isBlank formula) :
    compile formula = (parse (formula.getD "")).mapError .malformed := by
  cases formula with
  | none => exact absurd rfl h
  | some text => exact if_neg h

/-- What compiling a formula gives, told apart by what is wrong with the formula. -/
theorem compile_cases (formula : Option String) :
    (isBlank formula ∧ compile formula = .error .empty) ∨
      (¬ isBlank formula ∧ ∃ cause, parse (formula.getD "") = .error cause ∧
        compile formula = .error (.malformed cause)) ∨
      ¬ isBlank formula ∧ ∃ e, parse (formula.getD "") = .ok e ∧ compile formula = .ok e := by
  by_cases hblank : isBlank formula
  · exact .inl ⟨hblank, compile_of_isBlank hblank⟩
  · rw [compile_of_not_isBlank hblank]
    cases hparse : parse (formula.getD "") with
    | error cause => exact .inr (.inl ⟨hblank, cause, rfl, rfl⟩)
    | ok e => exact .inr (.inr ⟨hblank, e, rfl, rfl⟩)

theorem validate_iff : validate formula ↔ ∃ e, compile formula = .ok e := by
  rcases compile_cases formula with ⟨hblank, h⟩ | ⟨hblank, cause, hparse, h⟩ |
    ⟨hblank, e, hparse, h⟩
  · simp [validate, hblank, h]
  · simp [validate, hparse, h, Except.isOk, Except.toBool]
  · simp [validate, hblank, hparse, h, Except.isOk, Except.toBool]

theorem errorMessage_of_error (h : compile formula = .error failure) :
    errorMessage? formula = some failure.message := by
  rcases compile_cases formula with ⟨hblank, hc⟩ | ⟨hblank, cause, hparse, hc⟩ | ⟨-, e, -, hc⟩
  · cases hc.symm.trans h
    rw [errorMessage?, if_pos hblank]
  · cases hc.symm.trans h
    rw [errorMessage?, if_neg hblank, hparse]
    rfl
  · cases hc.symm.trans h

theorem errorMessage_eq_none_iff : errorMessage? formula = none ↔ ∃ e, compile formula = .ok e := by
  cases h : compile formula with
  | error failure =>
    rw [errorMessage_of_error h]
    simp
  | ok e =>
    rcases compile_cases formula with ⟨-, hc⟩ | ⟨-, cause, -, hc⟩ | ⟨hblank, e', hparse, -⟩
    · cases hc.symm.trans h
    · cases hc.symm.trans h
    · rw [errorMessage?, if_neg hblank, hparse]
      simp

theorem position_of_error (h : compile formula = .error failure) :
    position formula frame low high = .error failure := by
  rw [position, value, h]
  rfl

/-- A tree fails only while it is evaluated. -/
theorem position_of_ok (h : compile formula = .ok e)
    (hposition : position formula frame low high = .error failure) :
    ∃ cause, failure = .evaluation cause := by
  rw [position, value, h] at hposition
  rcases bind_eq_error_iff.1 hposition with hvalue | ⟨v, -, hsettle⟩
  · obtain ⟨cause, -, heq⟩ := mapError_eq_error_iff.1 hvalue
    exact ⟨cause, heq.symm⟩
  · obtain ⟨cause, -, heq⟩ := mapError_eq_error_iff.1 hsettle
    exact ⟨cause, heq.symm⟩

theorem position_eq_empty_iff :
    position formula frame low high = .error .empty ↔ isBlank formula := by
  rcases compile_cases formula with ⟨hblank, h⟩ | ⟨hblank, cause, -, h⟩ | ⟨hblank, e, -, h⟩
  · exact iff_of_true (position_of_error h) hblank
  · refine iff_of_false (fun hempty => ?_) hblank
    cases (position_of_error h).symm.trans hempty
  · refine iff_of_false (fun hempty => ?_) hblank
    obtain ⟨cause, hcause⟩ := position_of_ok h hempty
    cases hcause

/-- The formulas that pass are those of the grammar that are not nested too deeply. -/
theorem validate_iff_derives :
    validate (some text) ↔
      ¬ isBlankText text ∧ nesting (tokens text) ≤ nestingLimit ∧ ∃ e, Derives (tokens text) e := by
  rw [validate_iff]
  by_cases hblank : isBlankText text
  · have hcompile : compile (some text) = .error .empty := compile_of_isBlank hblank
    simp [hcompile, hblank]
  · have hcompile : compile (some text) = (parse text).mapError .malformed :=
      compile_of_not_isBlank hblank
    simp only [hcompile, mapError_eq_ok_iff, parse, Expr.ofTokensWithin_eq_ok_iff]
    simp [hblank]

/-- A control stores a formula that is blank or passes, and no other. It says which it did if the
identifier is short enough to be logged. -/
theorem updateFormula_eq (c : Control) (id : Int) (text : String) :
    c.updateFormula (.id id) text =
      ⟨if isBlankText text ∨ validate (some text) then
          { c with formulas := c.formulas.put id text } else c, [],
        if Integer.isShort id then .ok (decide (isBlankText text ∨ validate (some text)))
        else .error (.breakdown .tooLongToWrite)⟩ := by
  have hlogged : ∀ (c' : Control) (stored : Bool), c'.logged (.id id) stored =
      ⟨c', [], if Integer.isShort id then .ok stored
        else .error (.breakdown .tooLongToWrite)⟩ := by
    intro c' stored
    rw [Control.logged, Servo.Reference.log]
    by_cases hid : Integer.isShort id
    · rw [Integer.write_of_isShort hid, if_pos hid]
      rfl
    · rw [Integer.write_of_not_isShort hid, if_neg hid]
      rfl
  rw [Control.updateFormula]
  simp only [Bool.or_eq_true, Servo.Reference.resolve, hlogged]
  split
  · next h => simp [h]
  · next h => simp [h]

/-- What settings report are the formulas that are neither blank nor pass. -/
theorem mem_invalidFormulas_iff {s : Settings} {key message : String} :
    (key, message) ∈ s.invalidFormulas ↔
      ∃ text, s.formulas.get? key = some text ∧ ¬ isBlankText text ∧ ¬ validate (some text) ∧
        errorMessage? (some text) = some message := by
  rw [Settings.invalidFormulas, List.mem_filterMap]
  constructor
  · rintro ⟨⟨key', text⟩, hmem, hreport⟩
    dsimp only at hreport
    split at hreport
    · cases hreport
    · next hblank =>
      obtain ⟨message', hmessage, heq⟩ := Option.map_eq_some_iff.1 hreport
      cases heq
      refine ⟨text, Table.get?_eq_some_iff.2 hmem, hblank, fun hvalid => ?_, hmessage⟩
      rw [errorMessage_eq_none_iff.2 (validate_iff.1 hvalid)] at hmessage
      cases hmessage
  · rintro ⟨text, hget, hblank, -, hmessage⟩
    refine ⟨(key, text), Table.get?_eq_some_iff.1 hget, ?_⟩
    dsimp only
    rw [if_neg hblank, hmessage]
    rfl

theorem nodup_keys_invalidFormulas (s : Settings) : (s.invalidFormulas.map Prod.fst).Nodup := by
  have hsub : (s.invalidFormulas.map Prod.fst).Sublist (s.formulas.entries.map Prod.fst) := by
    rw [Settings.invalidFormulas]
    induction s.formulas.entries with
    | nil => exact .slnil
    | cons e l ih =>
      rw [List.filterMap_cons]
      split
      · exact ih.cons _
      · next reported hreported =>
        dsimp only at hreported
        split at hreported
        · cases hreported
        · obtain ⟨message, -, rfl⟩ := Option.map_eq_some_iff.1 hreported
          exact ih.cons_cons _
  exact hsub.nodup s.formulas.nodup_keys

/-- All checks of a formula agree. It passes if there is no message for it, and if it compiles, that
is if it is not blank and its tokens have a derivation that is not nested too deeply. If it does not
compile, it is blank or malformed, the message is that of the failure, and it has no position for
that reason on any frame; if it compiles, it fails for neither reason. A control stores a formula
that is blank or passes and leaves its formulas as they are for all others; it answers whether it
stored one, unless the identifier is too long to be logged. Settings report those that are neither,
each once and with the message. -/
theorem gates_agree (formula : Option String) :
    (validate formula ↔ errorMessage? formula = none) ∧
      (validate formula ↔ ∃ e, compile formula = .ok e) ∧
      (∀ text, formula = some text → (validate formula ↔
        ¬ isBlankText text ∧ nesting (tokens text) ≤ nestingLimit ∧
          ∃ e, Derives (tokens text) e)) ∧
      (∀ failure, compile formula = .error failure →
        errorMessage? formula = some failure.message ∧
          (failure = .empty ∧ isBlank formula ∨
            (∃ cause, failure = .malformed cause) ∧ ¬ isBlank formula) ∧
          ∀ frame low high, position formula frame low high = .error failure) ∧
      (validate formula → ∀ frame low high failure,
        position formula frame low high = .error failure →
          ∃ cause, failure = .evaluation cause) ∧
      (∀ (c : Control) id text, formula = some text →
        c.updateFormula (.id id) text =
          ⟨if isBlank formula ∨ validate formula then
              { c with formulas := c.formulas.put id text } else c, [],
            if Integer.isShort id then .ok (decide (isBlank formula ∨ validate formula))
            else .error (.breakdown .tooLongToWrite)⟩) ∧
      ∀ s : Settings, (s.invalidFormulas.map Prod.fst).Nodup ∧ ∀ key message,
        (key, message) ∈ s.invalidFormulas ↔
          ∃ text, s.formulas.get? key = some text ∧ ¬ isBlankText text ∧
            ¬ validate (some text) ∧ errorMessage? (some text) = some message := by
  refine ⟨validate_iff.trans errorMessage_eq_none_iff.symm, validate_iff, ?_, ?_, ?_, ?_, ?_⟩
  · rintro text rfl
    exact validate_iff_derives
  · intro failure h
    refine ⟨errorMessage_of_error h, ?_, fun frame low high => position_of_error h⟩
    rcases compile_cases formula with ⟨hblank, hc⟩ | ⟨hblank, cause, -, hc⟩ | ⟨-, e, -, hc⟩
    · exact .inl ⟨Except.error.inj (h.symm.trans hc), hblank⟩
    · exact .inr ⟨⟨cause, Except.error.inj (h.symm.trans hc)⟩, hblank⟩
    · cases h.symm.trans hc
  · intro hvalid frame low high failure h
    obtain ⟨e, he⟩ := validate_iff.1 hvalid
    exact position_of_ok he h
  · rintro c id text rfl
    exact updateFormula_eq c id text
  · exact fun s => ⟨nodup_keys_invalidFormulas s, fun key message => mem_invalidFormulas_iff⟩

end RobotHand.Formula
