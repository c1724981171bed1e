import RobotHand.Proofs.Grammar.Soundness

/-! Parsing accepts exactly the token lists of the grammar that are not nested too deeply, and gives
each the tree that the grammar assigns. -/
namespace RobotHand.Formula

/-- The nesting of a token list: the greatest weight of what stands open while it is read. -/
def nesting (ts : List Token) : Nat := Assembly.start.peak ts

theorem IsSum.ofTokens {n : Nat} {ts : List Token} {e : Expr} (h : IsSum n ts e) :
    Expr.ofTokens ts = .ok e ∧ nesting ts = n := by
  obtain ⟨q, v, ⟨hr, hp⟩, hm, htotal⟩ := h.reads []
  constructor
  · unfold Expr.ofTokens Assembly.start
    rw [hr]
    exact congrArg Except.ok htotal
  · simpa [nesting, Assembly.start] using hp

theorem Derives.unique {ts : List Token} {e e' : Expr} (h : Derives ts e) (h' : Derives ts e') :
    e = e' := by
  obtain ⟨n, hn⟩ := h
  obtain ⟨n', hn'⟩ := h'
  exact Except.ok.inj (hn.ofTokens.1.symm.trans hn'.ofTokens.1)

namespace Assembly

theorem operand_ne_tooDeep (stack : List (Bracket × Pending)) (p : Pending) (t : Token) :
    operand stack p t ≠ .error .tooDeep := by
  unfold operand
  split <;> simp

theorem close_ne_tooDeep (stack : List (Bracket × Pending)) (e : Expr) (t : Token) :
    close stack e t ≠ .error .tooDeep := by
  unfold close
  split <;> simp

theorem step_ne_tooDeep (s : Assembly) (t : Token) : s.step t ≠ .error .tooDeep := by
  cases s with
  | wantOperand stack p => exact operand_ne_tooDeep stack p t
  | wantOpening f stack p =>
    unfold step
    dsimp only
    split <;> simp
  | wantArgument f stack p =>
    unfold step
    dsimp only
    split
    · simp
    · exact operand_ne_tooDeep _ _ t
  | wantOperator stack p e =>
    unfold step
    dsimp only
    split
    · simp
    · exact close_ne_tooDeep stack _ t

theorem foldlM_step_ne_tooDeep (s : Assembly) (ts : List Token) :
    ts.foldlM step s ≠ .error .tooDeep := by
  induction ts generalizing s with
  | nil => simp [pure, Except.pure]
  | cons t ts ih =>
    rw [List.foldlM_cons]
    cases ht : s.step t with
    | error cause =>
      intro h
      exact s.step_ne_tooDeep t (ht.trans h)
    | ok next => exact ih next

theorem finish_ne_tooDeep (s : Assembly) : s.finish ≠ .error .tooDeep := by
  unfold finish
  split <;> simp

end Assembly

namespace Expr

theorem derives_of_ofTokens {ts : List Token} {e : Expr} (h : ofTokens ts = .ok e) :
    Derives ts e := by
  unfold ofTokens at h
  cases hs : ts.foldlM Assembly.step Assembly.start with
  | error cause => simp [hs, bind, Except.bind] at h
  | ok s =>
    have hfinish : s.finish = .ok e := by simpa [hs, bind, Except.bind] using h
    exact (Assembly.standsFor_start.foldlM hs).finish hfinish

theorem ofTokens_eq_ok_iff {ts : List Token} {e : Expr} : ofTokens ts = .ok e ↔ Derives ts e :=
  ⟨derives_of_ofTokens, fun ⟨_, h⟩ => h.ofTokens.1⟩

theorem ofTokens_ne_tooDeep (ts : List Token) : ofTokens ts ≠ .error .tooDeep := by
  unfold ofTokens
  cases hs : ts.foldlM Assembly.step Assembly.start with
  | error cause =>
    intro h
    have hcause : cause = .tooDeep := Except.error.inj h
    exact Assembly.foldlM_step_ne_tooDeep _ ts (hcause ▸ hs)
  | ok s => exact s.finish_ne_tooDeep

/-- The limit only takes away the lists that are nested beyond it. -/
theorem ofTokensWithin_eq (limit : Nat) (ts : List Token) :
    ofTokensWithin limit ts = if nesting ts ≤ limit then ofTokens ts else .error .tooDeep := by
  unfold ofTokensWithin ofTokens nesting
  rw [Assembly.foldlM_stepWithin ts (Nat.zero_le limit)]
  split <;> rfl

theorem ofTokensWithin_eq_ok_iff {limit : Nat} {ts : List Token} {e : Expr} :
    ofTokensWithin limit ts = .ok e ↔ nesting ts ≤ limit ∧ Derives ts e := by
  rw [ofTokensWithin_eq]
  split
  · next h => rw [ofTokens_eq_ok_iff, and_iff_right h]
  · next h => simp [h]

/-- Within a limit of nesting, exactly the derivations of the grammar are accepted. A list has at
most one tree, a derivation's nesting is that of its list, and a list without a derivation is
refused for another reason than its nesting. -/
theorem parses_exactly_the_grammar (limit : Nat) (ts : List Token) :
    (∀ e, ofTokensWithin limit ts = .ok e ↔ nesting ts ≤ limit ∧ Derives ts e) ∧
      (∀ e e', Derives ts e → Derives ts e' → e = e') ∧
      (∀ n e, IsSum n ts e → n = nesting ts) ∧
      (nesting ts ≤ limit → (∀ e, ¬ Derives ts e) →
        ∃ cause, cause ≠ .tooDeep ∧ ofTokensWithin limit ts = .error cause) := by
  refine ⟨fun e => ofTokensWithin_eq_ok_iff, fun e e' => Derives.unique,
    fun n e h => h.ofTokens.2.symm, ?_⟩
  intro hn hnone
  rw [ofTokensWithin_eq, if_pos hn]
  cases h : ofTokens ts with
  | error cause => exact ⟨cause, fun hc => ofTokens_ne_tooDeep ts (hc ▸ h), rfl⟩
  | ok e => exact absurd (derives_of_ofTokens h) (hnone e)

end Expr
end RobotHand.Formula
