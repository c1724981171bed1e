import RobotHand.Proofs.Grammar.Parsing
import RobotHand.Proofs.Outcomes

/-! Syntax errors and the token lists that can still become a formula. What assembly has read can
always be completed, so the first token that it refuses is the first that cannot follow. -/
namespace RobotHand.Formula

/-- A text keeps its letters when another is appended. -/
theorem getElem?_toList_append (a b : String) {i : Nat} {c : Char} (h : a.toList[i]? = some c) :
    (a ++ b).toList[i]? = some c := by
  obtain ⟨hlt, -⟩ := List.getElem?_eq_some_iff.1 h
  rw [String.toList_append, List.getElem?_append_left hlt, h]

namespace Malformed

def blamed? : Malformed → Option String
  | unexpectedToken lexeme | invalidNumber lexeme => some lexeme
  | _ => none

/-- A parenthesis is missing. -/
inductive LacksBracket : Malformed → Prop
  | opening (f : String) : LacksBracket (missingOpening f)
  | closing : LacksBracket missingClosing
  | closingOf (f : String) : LacksBracket (missingClosingOf f)

/-- The twelfth letter of a text, which tells the kind of error but for the two kinds of a missing
closing parenthesis. -/
def letter : Malformed → Char
  | unexpectedEnd => 'e'
  | unexpectedToken _ => 't'
  | invalidNumber _ => 'b'
  | missingOpening _ => '\''
  | missingClosing | missingClosingOf _ => 's'
  | tooDeep => 'n'

theorem letter_message (m : Malformed) : m.message.toList[11]? = some m.letter := by
  cases m with
  | unexpectedEnd | missingClosing | tooDeep => rfl
  | unexpectedToken lexeme => exact getElem?_toList_append "Unexpected token: " lexeme rfl
  | invalidNumber lexeme => exact getElem?_toList_append "Invalid number: " lexeme rfl
  | missingOpening f =>
    exact getElem?_toList_append _ "'"
      (getElem?_toList_append "Expected '(' after function name '" f rfl)
  | missingClosingOf f =>
    exact getElem?_toList_append _ "'"
      (getElem?_toList_append "Missing closing parenthesis for function '" f rfl)

theorem message_missingClosingOf_ne (f : String) :
    (missingClosingOf f).message ≠ missingClosing.message := by
  intro h
  have hlength : 42 + f.length + 1 = 27 := by
    have hsame := congrArg String.length h
    change ("Missing closing parenthesis for function '" ++ f ++ "'").length = 27 at hsame
    rw [String.length_append, String.length_append] at hsame
    exact hsame
  omega

/-- Errors with the same text are the same. -/
theorem message_injective : Function.Injective message := by
  intro a b h
  have hletter : a.letter = b.letter := by
    have htext := congrArg (fun s => s.toList[11]?) h
    simpa only [letter_message, Option.some.injEq] using htext
  cases a <;> cases b
  case unexpectedToken.unexpectedToken =>
    exact congrArg unexpectedToken ((String.append_right_inj _).1 h)
  case invalidNumber.invalidNumber =>
    exact congrArg invalidNumber ((String.append_right_inj _).1 h)
  case missingOpening.missingOpening =>
    have hstart := (String.append_left_inj _).1 h
    exact congrArg missingOpening ((String.append_right_inj _).1 hstart)
  case missingClosingOf.missingClosingOf =>
    have hstart := (String.append_left_inj _).1 h
    exact congrArg missingClosingOf ((String.append_right_inj _).1 hstart)
  case missingClosingOf.missingClosing f => exact absurd h (message_missingClosingOf_ne f)
  case missingClosing.missingClosingOf f => exact absurd h.symm (message_missingClosingOf_ne f)
  all_goals first
    | rfl
    | simp [letter] at hletter

end Malformed

/-- A token list with which an accepted one begins. -/
def Viable (ts : List Token) : Prop := ∃ us e, Expr.ofTokens (ts ++ us) = .ok e

namespace Assembly

variable {s next : Assembly} {t : Token} {ts : List Token} {cause : Malformed}

/-- Further tokens lead to a tree. -/
def Completes (s : Assembly) : Prop :=
  ∃ (us : List Token) (last : Assembly) (e : Expr),
    us.foldlM step s = .ok last ∧ last.finish = .ok e

theorem Completes.step (ht : s.step t = .ok next) (h : next.Completes) : s.Completes := by
  obtain ⟨us, last, e, hus, hlast⟩ := h
  refine ⟨t :: us, last, e, ?_, hlast⟩
  rw [List.foldlM_cons]
  exact bind_eq_ok_iff.2 ⟨next, ht, hus⟩

/-- Once an operand is complete, all that is open can be closed. -/
theorem completes_wantOperator (stack : List (Bracket × Pending)) (p : Pending) (e : Expr) :
    (wantOperator stack p e).Completes := by
  induction stack generalizing p e with
  | nil => exact ⟨[], _, p.total e, rfl, rfl⟩
  | cons top stack ih =>
    obtain ⟨b, outer⟩ := top
    cases b with
    | group =>
      have hclose : step (wantOperator ((.group, outer) :: stack) p e) ⟨.closing, ")"⟩ =
          .ok (settle stack outer (p.total e)) := rfl
      exact .step hclose (ih _ _)
    | call f es =>
      have hclose : step (wantOperator ((.call f es, outer) :: stack) p e) ⟨.closing, ")"⟩ =
          .ok (settle stack outer (.call f (es ++ [p.total e]))) := rfl
      exact .step hclose (ih _ _)

theorem completes_wantArgument (f : String) (stack : List (Bracket × Pending)) (p : Pending) :
    (wantArgument f stack p).Completes := by
  have hclose : step (wantArgument f stack p) ⟨.closing, ")"⟩ =
      .ok (settle stack p (.call f [])) := rfl
  exact .step hclose (completes_wantOperator _ _ _)

/-- Whatever is part way through can be completed. -/
theorem completes (s : Assembly) : s.Completes := by
  cases s with
  | wantOperand stack p =>
    have hoperand : step (wantOperand stack p) ⟨.variable "x", "x"⟩ =
        .ok (settle stack p (.variable "x")) := rfl
    exact .step hoperand (completes_wantOperator _ _ _)
  | wantOpening f stack p =>
    have hopen : step (wantOpening f stack p) ⟨.opening, "("⟩ =
        .ok (wantArgument f stack p) := rfl
    exact .step hopen (completes_wantArgument f stack p)
  | wantArgument f stack p => exact completes_wantArgument f stack p
  | wantOperator stack p e => exact completes_wantOperator stack p e

/-- A token list is viable exactly if all of it can be read. -/
theorem viable_iff : Viable ts ↔ ∃ s, ts.foldlM step start = .ok s := by
  constructor
  · rintro ⟨us, e, h⟩
    rw [Expr.ofTokens, List.foldlM_append] at h
    obtain ⟨last, hlast, -⟩ := bind_eq_ok_iff.1 h
    obtain ⟨s, hs, -⟩ := bind_eq_ok_iff.1 hlast
    exact ⟨s, hs⟩
  · rintro ⟨s, hs⟩
    obtain ⟨us, last, e, hus, hlast⟩ := s.completes
    refine ⟨us, e, ?_⟩
    rw [Expr.ofTokens, List.foldlM_append]
    exact bind_eq_ok_iff.2 ⟨last, bind_eq_ok_iff.2 ⟨s, hs, hus⟩, hlast⟩

/-- Where an operand must start, a token that cannot start one is blamed. -/
theorem operand_eq_error {stack : List (Bracket × Pending)} {p : Pending}
    (h : operand stack p t = .error cause) : cause.blamed? = some t.lexeme := by
  unfold operand at h
  split at h <;> cases h <;> rfl

theorem close_eq_error {stack : List (Bracket × Pending)} {e : Expr}
    (h : close stack e t = .error cause) :
    cause.blamed? = some t.lexeme ∨ cause.LacksBracket := by
  unfold close at h
  split at h <;> cases h
  · exact .inl rfl
  · exact .inr .closing
  · exact .inr (.closingOf _)

/-- A token that is refused is blamed, unless a parenthesis is missing before it. -/
theorem step_eq_error (h : s.step t = .error cause) :
    cause.blamed? = some t.lexeme ∨ cause.LacksBracket := by
  cases s with
  | wantOperand stack p => exact .inl (operand_eq_error h)
  | wantOpening f stack p =>
    simp only [Assembly.step] at h
    split at h <;> cases h
    exact .inr (.opening f)
  | wantArgument f stack p =>
    simp only [Assembly.step] at h
    split at h
    · cases h
    · exact .inl (operand_eq_error h)
  | wantOperator stack p e =>
    simp only [Assembly.step] at h
    split at h
    · cases h
    · exact close_eq_error h

/-- An end that comes too early blames no token. -/
theorem finish_eq_error (h : s.finish = .error cause) :
    cause = .unexpectedEnd ∨ cause.LacksBracket := by
  unfold finish at h
  split at h <;> cases h
  · exact .inl rfl
  · exact .inr (.opening _)
  · exact .inr (.closingOf _)
  · exact .inr .closing
  · exact .inr (.closingOf _)

end Assembly

open Assembly

variable {ts before after : List Token} {t : Token} {cause : Malformed} {s : Assembly} {k : Nat}

/-- The longest viable beginning of a token list has this length. -/
def IsViableLength (ts : List Token) (k : Nat) : Prop :=
  IsGreatest {i | i ≤ ts.length ∧ Viable (ts.take i)} k

/-- A beginning of a viable list is viable. -/
theorem Viable.of_append (h : Viable (before ++ after)) : Viable before := by
  obtain ⟨us, e, h⟩ := h
  rw [List.append_assoc] at h
  exact ⟨after ++ us, e, h⟩

theorem not_viable_of_step (hbefore : before.foldlM step start = .ok s)
    (ht : s.step t = .error cause) : ¬ Viable (before ++ [t]) := by
  intro h
  obtain ⟨last, hlast⟩ := viable_iff.1 h
  have hfail : (before ++ [t]).foldlM step start = .error cause :=
    foldlM_eq_error_iff.2 ⟨before, t, [], s, rfl, hbefore, ht⟩
  rw [hfail] at hlast
  cases hlast

/-- Viability ends before the first token that is refused. -/
theorem isViableLength_of_step (hbefore : before.foldlM step start = .ok s)
    (ht : s.step t = .error cause) : IsViableLength (before ++ t :: after) before.length := by
  constructor
  · refine ⟨by simp, ?_⟩
    rw [List.take_left]
    exact viable_iff.2 ⟨s, hbefore⟩
  · rintro i ⟨-, hi⟩
    by_contra hlong
    have hsplit : before ++ t :: after = (before ++ [t]) ++ after := by simp
    have hpart : (before ++ [t]).length ≤ i := by
      rw [List.length_append, List.length_singleton]
      omega
    rw [hsplit, List.take_append, List.take_of_length_le hpart] at hi
    exact not_viable_of_step hbefore ht hi.of_append

theorem isViableLength_of_finish (hs : ts.foldlM step start = .ok s) :
    IsViableLength ts ts.length := by
  constructor
  · refine ⟨Nat.le_refl _, ?_⟩
    rw [List.take_length]
    exact viable_iff.2 ⟨s, hs⟩
  · rintro i ⟨hi, -⟩
    exact hi

/-- A list is refused at its first token that cannot follow, or at its end. -/
theorem Expr.exists_viableLength (h : Expr.ofTokens ts = .error cause) :
    ∃ k, IsViableLength ts k ∧
      ((∃ t, ts[k]? = some t ∧ (cause.blamed? = some t.lexeme ∨ cause.LacksBracket)) ∨
        k = ts.length ∧ (cause = .unexpectedEnd ∨ cause.LacksBracket)) := by
  rcases bind_eq_error_iff.1 h with hfold | ⟨s, hs, hfinish⟩
  · obtain ⟨before, t, after, s, rfl, hbefore, ht⟩ := foldlM_eq_error_iff.1 hfold
    refine ⟨before.length, isViableLength_of_step hbefore ht, .inl ⟨t, ?_, step_eq_error ht⟩⟩
    simp
  · exact ⟨ts.length, isViableLength_of_finish hs, .inr ⟨rfl, finish_eq_error hfinish⟩⟩

theorem Expr.ofTokensWithin_eq_error (h : Expr.ofTokens ts = .error cause) (limit : Nat) :
    Expr.ofTokensWithin limit ts = .error (if nesting ts ≤ limit then cause else .tooDeep) := by
  rw [Expr.ofTokensWithin_eq, h]
  split <;> rfl

theorem Malformed.LacksBracket.blamed (h : cause.LacksBracket) : cause.blamed? = none := by
  cases h <;> rfl

theorem Malformed.LacksBracket.message (h : cause.LacksBracket) :
    cause.message = "Missing closing parenthesis" ∨
      (∃ f, cause.message = "Missing closing parenthesis for function '" ++ f ++ "'") ∨
      ∃ f, cause.message = "Expected '(' after function name '" ++ f ++ "'" := by
  cases h with
  | opening f => exact .inr (.inr ⟨f, rfl⟩)
  | closing => exact .inl rfl
  | closingOf f => exact .inr (.inl ⟨f, rfl⟩)

theorem Malformed.blamed_of_message {lexeme : String}
    (h : cause.message = "Unexpected token: " ++ lexeme ∨
      cause.message = "Invalid number: " ++ lexeme) : cause.blamed? = some lexeme := by
  rcases h with h | h
  · have hcause : cause = .unexpectedToken lexeme := Malformed.message_injective h
    rw [hcause, Malformed.blamed?]
  · have hcause : cause = .invalidNumber lexeme := Malformed.message_injective h
    rw [hcause, Malformed.blamed?]

/-- A syntax error that blames a token blames the first one after which no formula can go on, and
an error at the end of a list blames none. A limit of nesting only brings an error of its own. -/
theorem syntax_errors_blame_first_offender (h : Expr.ofTokens ts = .error cause) :
    (∀ limit, Expr.ofTokensWithin limit ts =
        .error (if nesting ts ≤ limit then cause else .tooDeep)) ∧
      ∃ k, IsGreatest {i | i ≤ ts.length ∧ Viable (ts.take i)} k ∧
        (∀ lexeme, cause.message = "Unexpected token: " ++ lexeme ∨
            cause.message = "Invalid number: " ++ lexeme →
          ∃ t, ts[k]? = some t ∧ t.lexeme = lexeme) ∧
        (cause.message = "Unexpected end of formula" → k = ts.length) ∧
        (k = ts.length →
          cause.message = "Unexpected end of formula" ∨
            cause.message = "Missing closing parenthesis" ∨
            (∃ f, cause.message = "Missing closing parenthesis for function '" ++ f ++ "'") ∨
            ∃ f, cause.message = "Expected '(' after function name '" ++ f ++ "'") := by
  refine ⟨Expr.ofTokensWithin_eq_error h, ?_⟩
  obtain ⟨k, hk, hcause⟩ := Expr.exists_viableLength h
  refine ⟨k, hk, ?_, ?_, ?_⟩
  · intro lexeme hmessage
    have hblamed := Malformed.blamed_of_message hmessage
    rcases hcause with ⟨t, ht, hat | hlacks⟩ | ⟨-, rfl | hlacks⟩
    · rw [hblamed, Option.some.injEq] at hat
      exact ⟨t, ht, hat.symm⟩
    · rw [hlacks.blamed] at hblamed
      cases hblamed
    · cases hblamed
    · rw [hlacks.blamed] at hblamed
      cases hblamed
  · intro hmessage
    have hend : cause = .unexpectedEnd := Malformed.message_injective hmessage
    subst hend
    rcases hcause with ⟨t, -, hat | hlacks⟩ | ⟨hend, -⟩
    · cases hat
    · cases hlacks
    · exact hend
  · intro hend
    rcases hcause with ⟨t, ht, -⟩ | ⟨-, rfl | hlacks⟩
    · rw [hend, List.getElem?_eq_none (Nat.le_refl _)] at ht
      cases ht
    · exact .inl rfl
    · exact .inr hlacks.message

/-- The tokens of `(1+)*2`. -/
def brokenSum : List Token :=
  [⟨.opening, "("⟩, ⟨.number (some 1), "1"⟩, ⟨.operator .add, "+"⟩, ⟨.closing, ")"⟩,
    ⟨.operator .multiply, "*"⟩, ⟨.number (some 2), "2"⟩]

/-- The parenthesis after the plus sign is the first offender. -/
theorem syntax_errors_blame_first_offender_sum :
    Expr.ofTokens brokenSum = .error (.unexpectedToken ")") ∧
      IsGreatest {i | i ≤ brokenSum.length ∧ Viable (brokenSum.take i)} 3 := by
  have hrefused : Expr.ofTokens brokenSum = .error (.unexpectedToken ")") := rfl
  obtain ⟨-, k, hk, hblame, -⟩ := syntax_errors_blame_first_offender hrefused
  obtain ⟨t, ht, hlexeme⟩ := hblame ")" (.inl rfl)
  have honly : ∀ i < brokenSum.length, (brokenSum[i]?.map Token.lexeme) = some ")" → i = 3 := by
    decide
  have hthree : k = 3 := by
    obtain ⟨hlt, -⟩ := List.getElem?_eq_some_iff.1 ht
    apply honly k hlt
    rw [ht, Option.map_some, hlexeme]
  rw [hthree] at hk
  exact ⟨hrefused, hk⟩

end RobotHand.Formula
