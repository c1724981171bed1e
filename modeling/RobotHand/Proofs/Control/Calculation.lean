import RobotHand.Proofs.Control.Effects
import RobotHand.Proofs.Control.Evaluating

/-! The calculated position of a servo is the latest that its formula gave. -/
namespace RobotHand.Control

variable {c now : Control} {steps : List Step} {s : Step} {i : Nat} {id p : Int}

/-- The step sees a hand, and the servo has a formula, not blank, that gives a position on it. -/
def Evaluates (now : Control) (s : Step) (id p : Int) : Prop :=
  ∃ hand formula, s.operation = .process (some hand) ∧ now.formulas.get? id = some formula ∧
    ¬ isBlankText formula ∧
      Formula.position (some formula) (some hand) Servo.minimum (now.maximum id) = .ok p

/-- Step `i` of a run evaluates the formula that is registered at that time. -/
def EvaluatesAt (c : Control) (steps : List Step) (i : Nat) (id p : Int) : Prop :=
  ∃ now s, Occurs c steps i now s ∧ Evaluates now s id p

/-- The last step of a run that evaluates the formula of a servo gives this position. -/
def LatestEvaluation (c : Control) (steps : List Step) (id p : Int) : Prop :=
  ∃ i, EvaluatesAt c steps i id p ∧ ∀ j, i < j → ∀ p', ¬ EvaluatesAt c steps j id p'

/-- No step of a run fails. -/
def Returns (c : Control) (steps : List Step) : Prop :=
  ∀ i now s, Occurs c steps i now s → ∃ a, (s.run now).value.result = .ok a

theorem returns_iff :
    Returns c steps ↔ ∀ i : Fin steps.length,
      (steps[i].run (c.after (steps.take i))).value.result.toBool := by
  have hok : ∀ r : Except Fault Answer, r.toBool ↔ ∃ a, r = .ok a := by
    intro r
    cases r with
    | error e => exact ⟨nofun, nofun⟩
    | ok a => exact ⟨fun _ => ⟨a, rfl⟩, fun _ => rfl⟩
  constructor
  · intro h i
    exact (hok _).2 (h i _ _ ⟨List.getElem?_eq_getElem i.isLt, rfl⟩)
  · rintro h i now s ⟨hs, rfl⟩
    obtain ⟨hi, rfl⟩ := List.getElem?_eq_some_iff.1 hs
    exact (hok _).1 (h ⟨i, hi⟩)

instance : Decidable (Returns c steps) := decidable_of_iff' _ returns_iff

theorem Evaluates.unique {p' : Int} (h : Evaluates now s id p) (h' : Evaluates now s id p') :
    p = p' := by
  obtain ⟨hand, formula, hs, hformula, -, hp⟩ := h
  obtain ⟨hand', formula', hs', hformula', -, hp'⟩ := h'
  have hhand : hand = hand' := by
    rw [hs] at hs'
    cases hs'
    rfl
  have hsame : formula = formula' := Option.some.inj (hformula.symm.trans hformula')
  subst hhand hsame
  exact Except.ok.inj (hp.symm.trans hp')

theorem Evaluates.process (h : Evaluates now s id p) :
    ∃ hand, s.operation = .process (some hand) := by
  obtain ⟨hand, formula, hs, -⟩ := h
  exact ⟨hand, hs⟩

theorem evaluates_iff {hand : List Landmark} {positions : List (Int × Int)}
    (hs : s.operation = .process (some hand)) (h : now.positionsOn hand = .ok positions) :
    Evaluates now s id p ↔ (id, p) ∈ positions := by
  rw [mem_positionsOn h]
  constructor
  · rintro ⟨hand', formula, hs', hformula, -, hp⟩
    rw [hs] at hs'
    cases hs'
    exact ⟨formula, hformula, hp⟩
  · rintro ⟨formula, hformula, hp⟩
    exact ⟨hand, formula, hs, hformula, not_blank_of_position hp, hp⟩

/-- A step that sees a hand either fails, or writes what the formulas give. -/
theorem run_process (now : Control) {hand : List Landmark}
    (hs : s.operation = .process (some hand)) :
    (∃ e, (s.run now).value = ⟨now, [], .error e⟩) ∨
      ∃ positions, now.positionsOn hand = .ok positions ∧
        (s.run now).value.control = { now with calculated := now.calculated.putAll positions } := by
  have hrun : (s.run now).value = (now.process (some hand)).map .positions := by
    rw [Step.run, hs]
    rfl
  rw [hrun, process]
  dsimp only
  cases h : now.positionsOn hand with
  | error e => exact .inl ⟨_, rfl⟩
  | ok positions => exact .inr ⟨positions, rfl, rfl⟩

theorem calculated_of_evaluates (hreturns : ∃ a, (s.run now).value.result = .ok a)
    (h : Evaluates now s id p) : (s.run now).value.control.calculated.get? id = some p := by
  obtain ⟨hand, hs⟩ := h.process
  rcases run_process now hs with ⟨e, hrun⟩ | ⟨positions, hpositions, hrun⟩
  · obtain ⟨a, ha⟩ := hreturns
    rw [hrun] at ha
    cases ha
  · have hmem := (evaluates_iff hs hpositions).1 h
    have hnodup := nodup_keys_positionsOn hpositions
    rw [hrun]
    exact Table.get?_putAll_of_mem hnodup hmem now.calculated

theorem calculated_of_not_evaluates (h : ∀ p, ¬ Evaluates now s id p) :
    (s.run now).value.control.calculated.get? id = now.calculated.get? id := by
  by_cases hs : ∃ hand, s.operation = .process (some hand)
  · obtain ⟨hand, hs⟩ := hs
    rcases run_process now hs with ⟨e, hrun⟩ | ⟨positions, hpositions, hrun⟩
    · rw [hrun]
    · have hkey : id ∉ positions.map Prod.fst := by
        intro hkey
        obtain ⟨e, he, rfl⟩ := List.mem_map.1 hkey
        exact h e.2 ((evaluates_iff hs hpositions).2 he)
      rw [hrun]
      exact Table.get?_putAll_of_not_mem hkey now.calculated
  · have hprocess : ∀ hand, s.operation ≠ .process (some hand) := fun hand heq => hs ⟨hand, heq⟩
    rw [(run_changes now s).calculated_eq hprocess]

theorem evaluatesAt_snoc_iff :
    EvaluatesAt c (steps ++ [s]) i id p ↔
      EvaluatesAt c steps i id p ∨ i = steps.length ∧ Evaluates (c.after steps) s id p := by
  unfold EvaluatesAt
  constructor
  · rintro ⟨now, s', hoccurs, h⟩
    rcases occurs_snoc_iff.1 hoccurs with hoccurs | ⟨hi, rfl, rfl⟩
    · exact .inl ⟨now, s', hoccurs, h⟩
    · exact .inr ⟨hi, h⟩
  · rintro (⟨now, s', hoccurs, h⟩ | ⟨hi, h⟩)
    · exact ⟨now, s', occurs_snoc_iff.2 (.inl hoccurs), h⟩
    · exact ⟨_, s, occurs_snoc_iff.2 (.inr ⟨hi, rfl, rfl⟩), h⟩

theorem EvaluatesAt.lt_length (h : EvaluatesAt c steps i id p) : i < steps.length := by
  obtain ⟨now, s, hoccurs, -⟩ := h
  exact (List.getElem?_eq_some_iff.1 hoccurs.1).1

theorem latestEvaluation_of_evaluates {p' : Int} (h : Evaluates (c.after steps) s id p') :
    LatestEvaluation c (steps ++ [s]) id p ↔ p' = p := by
  constructor
  · rintro ⟨i, hi, hlast⟩
    rcases evaluatesAt_snoc_iff.1 hi with hi | ⟨-, hp⟩
    · have hend : EvaluatesAt c (steps ++ [s]) steps.length id p' :=
        evaluatesAt_snoc_iff.2 (.inr ⟨rfl, h⟩)
      exact absurd hend (hlast _ hi.lt_length p')
    · exact h.unique hp
  · rintro rfl
    refine ⟨steps.length, evaluatesAt_snoc_iff.2 (.inr ⟨rfl, h⟩), fun j hj p hat => ?_⟩
    have hlt := hat.lt_length
    rw [List.length_append, List.length_singleton] at hlt
    omega

theorem latestEvaluation_of_not_evaluates (h : ∀ p, ¬ Evaluates (c.after steps) s id p) :
    LatestEvaluation c (steps ++ [s]) id p ↔ LatestEvaluation c steps id p := by
  have hsame : ∀ i p, EvaluatesAt c (steps ++ [s]) i id p ↔ EvaluatesAt c steps i id p := by
    intro i p
    rw [evaluatesAt_snoc_iff, or_iff_left fun hlast => h p hlast.2]
  simp only [LatestEvaluation, hsame]

theorem calculated_iff_latestEvaluation (hfresh : c.calculated = .empty)
    (hreturns : Returns c steps) :
    (c.after steps).calculated.get? id = some p ↔ LatestEvaluation c steps id p := by
  induction steps using List.reverseRecOn generalizing p with
  | nil =>
    have hnone : (c.after []).calculated.get? id = none := congrArg (Table.get? · id) hfresh
    rw [hnone]
    constructor
    · exact nofun
    · rintro ⟨i, hi, -⟩
      exact absurd hi.lt_length i.not_lt_zero
  | append_singleton steps s ih =>
    have hbefore : Returns c steps := fun i now s' hoccurs =>
      hreturns i now s' (occurs_snoc_iff.2 (.inl hoccurs))
    have hlast : ∃ a, (s.run (c.after steps)).value.result = .ok a :=
      hreturns steps.length _ s (occurs_snoc_iff.2 (.inr ⟨rfl, rfl, rfl⟩))
    rw [after_snoc]
    -- Either the last step evaluates, and is the latest to do so, or it leaves the entry alone.
    by_cases h : ∃ p', Evaluates (c.after steps) s id p'
    · obtain ⟨p', h⟩ := h
      rw [calculated_of_evaluates hlast h, latestEvaluation_of_evaluates h, Option.some.injEq]
    · have h : ∀ p', ¬ Evaluates (c.after steps) s id p' := fun p' hp' => h ⟨p', hp'⟩
      rw [calculated_of_not_evaluates h, latestEvaluation_of_not_evaluates h, ih hbefore]

/-- Of the evaluations of a servo, one is the latest. -/
theorem EvaluatesAt.exists_latest (h : EvaluatesAt c steps i id p) :
    ∃ p', LatestEvaluation c steps id p' := by
  induction steps using List.reverseRecOn with
  | nil => exact absurd h.lt_length i.not_lt_zero
  | append_singleton steps s ih =>
    by_cases hs : ∃ p', Evaluates (c.after steps) s id p'
    · obtain ⟨p', hs⟩ := hs
      exact ⟨p', (latestEvaluation_of_evaluates hs).2 rfl⟩
    · have hs : ∀ p', ¬ Evaluates (c.after steps) s id p' := fun p' hp' => hs ⟨p', hp'⟩
      rcases evaluatesAt_snoc_iff.1 h with h | ⟨-, h⟩
      · obtain ⟨p', hp'⟩ := ih h
        exact ⟨p', (latestEvaluation_of_not_evaluates hs).2 hp'⟩
      · exact absurd h (hs p)

/-- After a run without failures, a servo has a calculated position if and only if some step of the
run evaluated its formula, and then it is the position that the latest such step gave. A step that
does not evaluate the formula of a servo leaves the position of the servo as it is, and a step that
does not see a hand leaves all positions as they are. -/
theorem calculated_is_latest_evaluation (c : Control) (hfresh : c.calculated = .empty)
    (steps : List Step) (hreturns : Returns c steps) :
    let now := c.after steps
    (∀ id, id ∈ now.calculated.keys ↔ ∃ i p, EvaluatesAt c steps i id p) ∧
      (∀ id p, now.calculated.get? id = some p ↔ LatestEvaluation c steps id p) ∧
      (∀ (s : Step) id, (∀ p, ¬ Evaluates now s id p) →
        (s.run now).value.control.calculated.get? id = now.calculated.get? id) ∧
      ∀ s : Step, (∀ hand, s.operation ≠ .process (some hand)) →
        (s.run now).value.control.calculated = now.calculated := by
  intro now
  have hlatest : ∀ id p, now.calculated.get? id = some p ↔ LatestEvaluation c steps id p :=
    fun id p => calculated_iff_latestEvaluation hfresh hreturns
  refine ⟨fun id => ?_, hlatest, fun s id h => calculated_of_not_evaluates h, ?_⟩
  · rw [Table.mem_keys_iff]
    constructor
    · rintro ⟨p, hp⟩
      obtain ⟨i, hi, -⟩ := (hlatest id p).1 hp
      exact ⟨i, p, hi⟩
    · rintro ⟨i, p, hi⟩
      obtain ⟨p', hp'⟩ := hi.exists_latest
      exact ⟨p', (hlatest id p').2 hp'⟩
  · intro s hprocess
    exact (run_changes now s).calculated_eq hprocess

/-- A formula is evaluated, replaced by one that fails, and removed; frames come in between. -/
theorem calculated_is_latest_evaluation_removed :
    let steps : List Step :=
      [{ operation := .updateFormula (.id 1) "100" }, { operation := .process (some []) },
        { operation := .updateFormula (.id 1) "1/0" }, { operation := .process (some []) },
        { operation := .updateFormula (.id 1) "" }, { operation := .process (some []) },
        { operation := .process none }]
    ({} : Control).calculated = .empty ∧ Returns {} steps ∧ LatestEvaluation {} steps 1 100 := by
  intro steps
  have hreturns : Returns {} steps := by decide +kernel
  have hposition : (({} : Control).after steps).calculated.get? 1 = some 100 := by decide +kernel
  have hlatest := (calculated_is_latest_evaluation {} rfl steps hreturns).2.1 1 100
  exact ⟨rfl, hreturns, hlatest.1 hposition⟩

end RobotHand.Control
