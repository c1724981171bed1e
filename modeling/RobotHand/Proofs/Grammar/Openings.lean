import RobotHand.Proofs.Grammar.Viability
import RobotHand.Proofs.Printing.Scanning

/-! Scanning makes a function only of a name that an opening parenthesis follows, so that assembly
never misses the parenthesis of a call. -/
namespace RobotHand.Formula

/-- Each function name is followed at once by an opening parenthesis. -/
def Opened (ts : List Token) : Prop :=
  ∀ i f lexeme, ts[i]? = some ⟨.function f, lexeme⟩ → ts[i + 1]? = some ⟨.opening, "("⟩

variable {t : Token} {ts before after : List Token} {f lexeme : String}

theorem opened_cons : Opened (t :: ts) ↔
    (∀ f lexeme, t = ⟨.function f, lexeme⟩ → ts.head? = some ⟨.opening, "("⟩) ∧ Opened ts := by
  constructor
  · intro h
    refine ⟨fun f lexeme ht => ?_, fun i f lexeme hi => h (i + 1) f lexeme hi⟩
    have hnext := h 0 f lexeme (congrArg some ht)
    rwa [List.head?_eq_getElem?]
  · rintro ⟨ht, hts⟩ i f lexeme hi
    cases i with
    | zero =>
      have hnext := ht f lexeme (Option.some.inj hi)
      rwa [List.head?_eq_getElem?] at hnext
    | succ i => exact hts i f lexeme hi

/-- Only a function name has a condition on what follows it. -/
theorem Opened.cons (h : Opened ts) (ht : ∀ f, t.kind ≠ .function f) : Opened (t :: ts) := by
  refine opened_cons.2 ⟨fun f lexeme heq => ?_, h⟩
  exact absurd (congrArg Token.kind heq) (ht f)

theorem Opened.next (h : Opened (before ++ ⟨.function f, lexeme⟩ :: after)) :
    after.head? = some ⟨.opening, "("⟩ := by
  have hnext := h before.length f lexeme (by simp)
  rw [List.getElem?_append_right (by omega)] at hnext
  simpa [List.head?_eq_getElem?] using hnext

theorem mark_ne_function {c : Char} {kind : Token.Kind} (h : mark? c = some kind) (f : String) :
    kind ≠ .function f := by
  unfold mark? at h
  split at h <;> cases h <;> simp

theorem head_of_nameKind {cs : List Char} {name : String} (h : nameKind name cs = .function f) :
    (scan cs).head? = some ⟨.opening, "("⟩ := by
  unfold nameKind at h
  split at h
  · next hhead =>
    obtain ⟨rest, rfl⟩ := List.head?_eq_some_iff.1 hhead
    rw [scan_mark rfl]
    rfl
  · cases h

theorem opened_scan (cs : List Char) : Opened (scan cs) := by
  fun_induction scan cs with
  | case1 => exact fun i f lexeme h => by cases h
  | case2 c r hc lexeme ih => exact ih.cons (by simp)
  | case3 c r _ hc name ih =>
    refine opened_cons.2 ⟨fun f lexeme heq => ?_, ih⟩
    exact head_of_nameKind (congrArg Token.kind heq)
  | case4 c r _ _ kind hkind ih => exact ih.cons (mark_ne_function hkind)
  | case5 c r _ _ _ ih => exact ih

namespace Assembly

variable {s : Assembly}

/-- A step misses the parenthesis of a call only where it must follow. -/
theorem step_eq_missingOpening (h : s.step t = .error (.missingOpening f)) :
    ∃ stack p, s = .wantOpening f stack p ∧ t.kind ≠ .opening := by
  cases s with
  | wantOperand stack p => cases operand_eq_error h
  | wantOpening g stack p =>
    simp only [Assembly.step] at h
    split at h
    · cases h
    · next hkind =>
      cases h
      exact ⟨stack, p, rfl, hkind⟩
  | wantArgument g stack p =>
    simp only [Assembly.step] at h
    split at h
    · cases h
    · cases operand_eq_error h
  | wantOperator stack p e =>
    simp only [Assembly.step] at h
    split at h
    · cases h
    · unfold close at h
      split at h <;> cases h

theorem finish_eq_missingOpening (h : s.finish = .error (.missingOpening f)) :
    ∃ stack p, s = .wantOpening f stack p := by
  unfold finish at h
  split at h <;> cases h
  exact ⟨_, _, rfl⟩

/-- Where the parenthesis of a call must follow, the name of the function was the last token. -/
theorem exists_function {stack : List (Bracket × Pending)} {p : Pending}
    (h : ts.foldlM step start = .ok (.wantOpening f stack p)) :
    ∃ before lexeme, ts = before ++ [⟨.function f, lexeme⟩] := by
  have hstands := standsFor_start.foldlM h
  rw [List.nil_append] at hstands
  cases hstands with
  | wantOpening => exact ⟨_, _, rfl⟩

end Assembly

/-- Where each function name is followed by its parenthesis, none is missed. -/
theorem Opened.ofTokens_ne (h : Opened ts) (f : String) :
    Expr.ofTokens ts ≠ .error (.missingOpening f) := by
  intro herror
  -- Either way the error is met right after a function name, where the parenthesis stands.
  rcases bind_eq_error_iff.1 herror with hfold | ⟨s, hs, hfinish⟩
  · obtain ⟨read, t, after, s, rfl, hread, ht⟩ := foldlM_eq_error_iff.1 hfold
    obtain ⟨stack, p, rfl, hkind⟩ := Assembly.step_eq_missingOpening ht
    obtain ⟨before, lexeme, rfl⟩ := Assembly.exists_function hread
    rw [List.append_assoc, List.singleton_append] at h
    cases h.next
    exact hkind rfl
  · obtain ⟨stack, p, rfl⟩ := Assembly.finish_eq_missingOpening hfinish
    obtain ⟨before, lexeme, rfl⟩ := Assembly.exists_function hs
    cases h.next

end RobotHand.Formula
