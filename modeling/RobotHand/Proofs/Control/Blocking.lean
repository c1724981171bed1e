import RobotHand.Proofs.Control.Agreement
import RobotHand.Proofs.Control.Calculation
import RobotHand.Proofs.Control.Filtering

/-! When one servo keeps the others from being collected. -/
namespace RobotHand.Control

variable {s : Settings} {c now : Control} {steps : List Step} {step : Step}
  {commands : List Servo.Command} {id p : Int}

theorem positionsOf_of_lt (h : id < 1) : positionsOf id commands = [] := by
  apply positionsOf_of_not_mem
  intro hmem
  obtain ⟨command, -, rfl⟩ := List.mem_map.1 hmem
  exact absurd command.one_le_id (Int.not_le.2 h)

/-- What is marked as sent in a run from no marks is the position that was collected last. -/
theorem lastSent_after (hfresh : c.sent = .empty) (hnonneg : 0 ≤ c.threshold)
    (hsteps : ∀ step ∈ steps, ∀ threshold, step.operation ≠ .setThreshold threshold) (id : Int) :
    (c.after steps).lastSent id = (positionsOf id (c.collectedOf steps)).getLast?.getD 0 := by
  have hthreshold : ∀ before, before <+: steps → (c.after before).threshold = c.threshold :=
    fun before hbefore => threshold_after fun step hstep => hsteps step (hbefore.subset hstep)
  have hlast := (filtered_after hnonneg hthreshold).lastSent id
  have hzero : c.lastSent id = 0 := by
    rw [lastSent, hfresh]
    rfl
  rw [hzero, List.getLast?_cons] at hlast
  exact (Option.some.inj hlast).symm

/-- A position was calculated by a formula that was there at some time. -/
theorem exists_formula_of_calculated (hfresh : c.calculated = .empty)
    (h : (c.after steps).calculated.get? id = some p) :
    ∃ before, before <+: steps ∧ id ∈ (c.after before).formulas.keys := by
  induction steps using List.reverseRecOn generalizing p with
  | nil =>
    change c.calculated.get? id = some p at h
    rw [hfresh] at h
    cases h
  | append_singleton steps step ih =>
    by_cases hstep : ∃ p, Evaluates (c.after steps) step id p
    · obtain ⟨p, hand, formula, -, hformula, -⟩ := hstep
      exact ⟨steps, List.prefix_append steps [step], Table.mem_keys_iff.2 ⟨formula, hformula⟩⟩
    · rw [after_snoc, calculated_of_not_evaluates fun p hp => hstep ⟨p, hp⟩] at h
      obtain ⟨before, hbefore, hkey⟩ := ih h
      exact ⟨before, hbefore.trans (List.prefix_append steps [step]), hkey⟩

theorem ofSettings_spec (h : ofSettings s = .ok c) :
    c.threshold = s.threshold ∧ c.calculated = .empty ∧ c.sent = .empty := by
  obtain ⟨maxima, formulas, -, -, rfl⟩ := ofSettings_eq_ok_iff.1 h
  exact ⟨rfl, rfl, rfl⟩

/-- What is due after a run at the threshold of the settings, by the settings and the collections.
-/
theorem mem_due_after_iff (hbuilt : ofSettings s = .ok c)
    (hsteps : ∀ step ∈ steps, ∀ threshold, step.operation ≠ .setThreshold threshold) :
    (id, p) ∈ (c.after steps).due ↔ (c.after steps).calculated.get? id = some p ∧
      FurtherThan s.threshold p ((positionsOf id (c.collectedOf steps)).getLast?.getD 0) := by
  obtain ⟨hthreshold, -, hsent⟩ := ofSettings_spec hbuilt
  have hnonneg : 0 ≤ c.threshold := hthreshold ▸ s.threshold_nonneg
  have hnow : (c.after steps).threshold = s.threshold :=
    (threshold_after hsteps).trans hthreshold
  rw [mem_due_iff (hnow ▸ s.threshold_nonneg), hnow, lastSent_after hsent hnonneg hsteps]

/-- No command is sent to a servo with an identifier below one, so that it stays due for as long as
it is further than the threshold from zero. -/
theorem collects_after_iff (hbuilt : ofSettings s = .ok c)
    (hsteps : ∀ step ∈ steps, ∀ threshold, step.operation ≠ .setThreshold threshold) :
    (∃ commands, (c.after steps).collect.result = .ok commands) ↔
      ∀ id p, id < 1 → (c.after steps).calculated.get? id = some p →
        ¬ FurtherThan s.threshold p 0 := by
  constructor
  · rintro ⟨commands, hok⟩ id p hid hp hfar
    have hmem : (id, p) ∈ (c.after steps).due :=
      (mem_due_after_iff hbuilt hsteps).2 ⟨hp, (positionsOf_of_lt hid).symm ▸ hfar⟩
    obtain ⟨e, herror⟩ := collect_fails_iff.2 ⟨_, hmem, hid⟩
    rw [hok] at herror
    cases herror
  · intro hnear
    cases hresult : (c.after steps).collect.result with
    | ok commands => exact ⟨commands, rfl⟩
    | error e =>
      obtain ⟨⟨id, p⟩, hmem, hid⟩ := collect_fails_iff.1 ⟨e, hresult⟩
      obtain ⟨hp, hfar⟩ := (mem_due_after_iff hbuilt hsteps).1 hmem
      rw [positionsOf_of_lt hid] at hfar
      exact absurd hfar (hnear id p hid hp)

/-- In a run at the threshold of its settings, a control collects exactly if no servo with an
identifier below one is further than the threshold from zero. Then it collects exactly the servos
that are further than the threshold from the position that was collected last for them. Otherwise it
collects none and stays as it is. -/
theorem invalid_servo_blocks_iff (hbuilt : ofSettings s = .ok c)
    (hsteps : ∀ step ∈ steps, ∀ threshold, step.operation ≠ .setThreshold threshold) :
    let now := c.after steps
    ((∃ commands, now.collect.result = .ok commands) ↔
        ∀ id p, id < 1 → now.calculated.get? id = some p → ¬ FurtherThan s.threshold p 0) ∧
      (∀ commands, now.collect.result = .ok commands → ∀ id p,
        (id, p) ∈ commands.map Servo.Command.entry ↔
          now.calculated.get? id = some p ∧ FurtherThan s.threshold p
            ((positionsOf id (c.collectedOf steps)).getLast?.getD 0)) ∧
      (∀ e, now.collect.result = .error e →
        e = .invalidCommand [⟨.belowMinimum, [.field "id"]⟩] ∧ now.collect.control = now) ∧
      ((∀ before, before <+: steps → ∀ id ∈ (c.after before).formulas.keys, 1 ≤ id) →
        ∃ commands, now.collect.result = .ok commands) := by
  intro now
  obtain ⟨-, hcalculated, -⟩ := ofSettings_spec hbuilt
  have hsucceeds := collects_after_iff hbuilt hsteps
  refine ⟨hsucceeds, fun commands hok id p => ?_, fun e herror => ?_, fun hids => ?_⟩
  · rw [entries_of_collect hok]
    exact mem_due_after_iff hbuilt hsteps
  · exact ⟨collectFrom_eq_error herror, by rw [collect_of_error herror]⟩
  · refine hsucceeds.2 fun id p hid hp => ?_
    obtain ⟨before, hbefore, hkey⟩ := exists_formula_of_calculated hcalculated hp
    exact absurd (hids before hbefore id hkey) (Int.not_le.2 hid)

theorem invalid_servo_blocks_iff_near :
    let text := "\x7b\"formulas\":\x7b\"0\":\"3\",\"1\":\"100\"\x7d\x7d"
    ∃ s, Settings.load (FileTree.empty.put (Path.ofText "a.json") (.file text))
        (Path.ofText "a.json") = .ok s ∧
      ∃ c, ofSettings s = .ok c ∧
        let now := c.after [{ operation := .process (some []) }]
        now.calculated.entries = [(0, 3), (1, 100)] ∧
          ∃ commands, now.collect.result = .ok commands := by
  intro text
  let steps : List Step := [{ operation := .process (some []) }]
  have hbuilt : ∃ s, Settings.load (FileTree.empty.put (Path.ofText "a.json") (.file text))
      (Path.ofText "a.json") = .ok s ∧
      ∃ c, ofSettings s = .ok c ∧ (c.after steps).calculated.entries = [(0, 3), (1, 100)] ∧
        (c.after steps).threshold = s.threshold ∧ (c.after steps).lastSent 0 = 0 ∧
          ¬ (c.after steps).hasMoved 0 3 := by
    decide +kernel
  obtain ⟨s, hload, c, hc, hentries, hthreshold, hsent, hnear⟩ := hbuilt
  have hsteps : ∀ step ∈ steps, ∀ threshold, step.operation ≠ .setThreshold threshold := by
    intro step hstep threshold heq
    rw [List.mem_singleton.1 hstep] at heq
    cases heq
  refine ⟨s, hload, c, hc, hentries, (invalid_servo_blocks_iff hc hsteps).1.2 ?_⟩
  intro id p hid hp
  rw [Table.get?_eq_some_iff, hentries] at hp
  rcases List.mem_pair.1 hp with heq | heq
  · cases heq
    rw [← hthreshold, ← hsent, ← hasMoved_iff (hthreshold ▸ s.threshold_nonneg)]
    exact hnear
  · cases heq
    exact absurd hid (by decide)

/-- A servo without a valid identifier keeps the first servo from being collected. -/
theorem servo_zero_blocks_servo_one :
    let text := "\x7b\"formulas\":\x7b\"0\":\"100\",\"1\":\"100\"\x7d\x7d"
    ∃ s, Settings.load (FileTree.empty.put (Path.ofText "a.json") (.file text))
        (Path.ofText "a.json") = .ok s ∧
      ∃ c, ofSettings s = .ok c ∧
        let now := c.after [{ operation := .process (some []) }]
        now.calculated.get? 1 = some 100 ∧ now.hasMoved 1 100 ∧
          now.collect.result = .error (.invalidCommand [⟨.belowMinimum, [.field "id"]⟩]) := by
  intro text
  have hbuilt : ∃ s, Settings.load (FileTree.empty.put (Path.ofText "a.json") (.file text))
      (Path.ofText "a.json") = .ok s ∧
      ∃ c, ofSettings s = .ok c ∧
        let now := c.after [{ operation := .process (some []) }]
        now.calculated.get? 1 = some 100 ∧ now.hasMoved 1 100 ∧
          now.calculated.get? 0 = some 100 ∧ now.hasMoved 0 100 := by
    decide +kernel
  obtain ⟨s, hload, c, hc, hone, hmoved, hzero, hmoved'⟩ := hbuilt
  refine ⟨s, hload, c, hc, hone, hmoved, ?_⟩
  obtain ⟨e, herror⟩ := collect_fails_iff.2 ⟨(0, 100), mem_due.2 ⟨hzero, hmoved'⟩, by decide⟩
  rw [collect_of_error herror]

end RobotHand.Control
