import RobotHand.Proofs.Control.Calculation
import RobotHand.Proofs.Control.Filtering

/-! Servos do not interfere: what becomes of one does not depend on the others. -/
namespace RobotHand.Control

variable {c c' now now' : Control} {steps steps' : List Step} {s s' : Step} {id p : Int} {i : Nat}
  {commands : List Servo.Command}

def duePosition (c : Control) (id : Int) : Option Int :=
  (c.calculated.get? id).filter (c.hasMoved id)

theorem mem_due_iff_duePosition : (id, p) ∈ c.due ↔ c.duePosition id = some p := by
  rw [mem_due, duePosition, Option.filter_eq_some_iff]

theorem get?_sent_marked (c : Control) (id : Int) :
    c.marked.sent.get? id = (c.duePosition id).or (c.sent.get? id) := by
  cases h : c.duePosition id with
  | some p =>
    exact Table.get?_putAll_of_mem c.nodup_keys_due (mem_due_iff_duePosition.2 h) c.sent
  | none =>
    have hkey : id ∉ c.due.map Prod.fst := by
      intro hmem
      obtain ⟨e, he, rfl⟩ := List.mem_map.1 hmem
      rw [mem_due_iff_duePosition.1 he] at h
      cases h
    exact Table.get?_putAll_of_not_mem hkey c.sent

theorem positionsOf_of_due (h : c.due = commands.map Servo.Command.entry) :
    positionsOf id commands = (c.duePosition id).toList := by
  have hkeys := map_id_commands h
  cases hdue : c.duePosition id with
  | some p =>
    obtain ⟨command, hcommand, hentry⟩ := List.mem_map.1 (h ▸ mem_due_iff_duePosition.2 hdue)
    cases hentry
    exact positionsOf_of_mem (hkeys ▸ c.nodup_keys_due) hcommand
  | none =>
    apply positionsOf_of_not_mem
    intro hmem
    obtain ⟨e, he, rfl⟩ := List.mem_map.1 (hkeys ▸ hmem)
    rw [mem_due_iff_duePosition.1 he] at hdue
    cases hdue

/-- The same operation, apart from what it says of formulas. -/
inductive Operation.Matches : Operation → Operation → Prop
  | updateFormula (servo servo' : Servo.Reference) (formula formula' : String) :
    Matches (.updateFormula servo formula) (.updateFormula servo' formula')
  | setFormulas (formulas formulas' : Table String String) :
    Matches (.setFormulas formulas) (.setFormulas formulas')
  | process (frame : Frame) : Matches (.process frame) (.process frame)
  | setThreshold (threshold : Float) : Matches (.setThreshold threshold) (.setThreshold threshold)
  | collect : Matches .collect .collect

/-- Two controls that are alike as far as one servo is concerned, apart from its formula. -/
structure Alike (id : Int) (c c' : Control) : Prop where
  threshold : c.threshold = c'.threshold
  maximum : c.maximum id = c'.maximum id
  calculated : c.calculated.get? id = c'.calculated.get? id
  sent : c.sent.get? id = c'.sent.get? id

theorem Alike.duePosition_eq (h : Alike id c c') : c.duePosition id = c'.duePosition id := by
  have hmoved : c.hasMoved id = c'.hasMoved id := by
    funext position
    rw [hasMoved, hasMoved, h.threshold, h.sent]
  rw [duePosition, duePosition, h.calculated, hmoved]

theorem Alike.evaluates_iff (h : Alike id c c')
    (hformula : c.formulas.get? id = c'.formulas.get? id)
    (hs : s.operation = s'.operation) : Evaluates c s id p ↔ Evaluates c' s' id p := by
  unfold Evaluates
  rw [hs, hformula, h.maximum]

/-- A frame gives a servo the same position. -/
theorem Alike.calculated_process (h : Alike id c c')
    (hformula : c.formulas.get? id = c'.formulas.get? id) (hs : s.operation = s'.operation)
    (hreturns : ∃ a, (s.run c).value.result = .ok a)
    (hreturns' : ∃ a, (s'.run c').value.result = .ok a) :
    (s.run c).value.control.calculated.get? id = (s'.run c').value.control.calculated.get? id := by
  have hiff : ∀ p, Evaluates c s id p ↔ Evaluates c' s' id p := fun _ => h.evaluates_iff hformula hs
  by_cases hevaluates : ∃ p, Evaluates c s id p
  · obtain ⟨p, hp⟩ := hevaluates
    rw [calculated_of_evaluates hreturns hp, calculated_of_evaluates hreturns' ((hiff p).1 hp)]
  · have hnone : ∀ p, ¬ Evaluates c s id p := fun p hp => hevaluates ⟨p, hp⟩
    have hnone' : ∀ p, ¬ Evaluates c' s' id p := fun p hp => hnone p ((hiff p).2 hp)
    rw [calculated_of_not_evaluates hnone, calculated_of_not_evaluates hnone', h.calculated]

/-- A collection that returns gives a servo its position, if it has moved, and marks that. -/
theorem run_collect (id : Int) (hs : s.operation = .collect)
    (hreturns : ∃ a, (s.run c).value.result = .ok a) :
    (s.run c).value.control = c.marked ∧
      positionsOf id (s.collected c) = (c.duePosition id).toList := by
  obtain ⟨operation, script, idle⟩ := s
  cases hs
  rcases c.collect_cases with ⟨complaints, -, h⟩ | ⟨commands, hcommands, h⟩
  · obtain ⟨a, ha⟩ := hreturns
    change (c.collect.map Answer.commands).result = .ok a at ha
    rw [h] at ha
    cases ha
  · refine ⟨congrArg Turn.control h, ?_⟩
    change positionsOf id (c.collect.result.toOption.getD []) = _
    rw [h]
    exact positionsOf_of_due hcommands.symm

/-- Matching steps give a servo the same position, mark the same and collect the same for it, if it
has the same formula. -/
theorem Alike.step (h : Alike id c c') (hformula : c.formulas.get? id = c'.formulas.get? id)
    (hmatch : s.operation.Matches s'.operation) (hreturns : ∃ a, (s.run c).value.result = .ok a)
    (hreturns' : ∃ a, (s'.run c').value.result = .ok a) :
    Alike id (s.run c).value.control (s'.run c').value.control ∧
      positionsOf id (s.collected c) = positionsOf id (s'.collected c') := by
  obtain ⟨operation, script, idle⟩ := s
  obtain ⟨operation', script', idle'⟩ := s'
  cases hmatch with
  | updateFormula servo servo' formula formula' =>
    obtain ⟨formulas, hrun⟩ := updateFormula_control (c := c) servo formula
    obtain ⟨formulas', hrun'⟩ := updateFormula_control (c := c') servo' formula'
    refine ⟨?_, rfl⟩
    change Alike id (c.updateFormula servo formula).control
      (c'.updateFormula servo' formula').control
    rw [hrun, hrun']
    exact ⟨h.threshold, h.maximum, h.calculated, h.sent⟩
  | setFormulas table table' =>
    obtain ⟨formulas, hrun⟩ := setFormulas_control (c := c) table
    obtain ⟨formulas', hrun'⟩ := setFormulas_control (c := c') table'
    refine ⟨?_, rfl⟩
    change Alike id (c.setFormulas table).control (c'.setFormulas table').control
    rw [hrun, hrun']
    exact ⟨h.threshold, h.maximum, h.calculated, h.sent⟩
  | process frame =>
    have hcalculated := h.calculated_process hformula rfl hreturns hreturns'
    refine ⟨?_, rfl⟩
    cases frame with
    | none => exact h
    | some hand =>
      obtain ⟨calculated, hrun⟩ := process_control (c := c) hand
      obtain ⟨calculated', hrun'⟩ := process_control (c := c') hand
      change (c.process (some hand)).control.calculated.get? id =
        (c'.process (some hand)).control.calculated.get? id at hcalculated
      change Alike id (c.process (some hand)).control (c'.process (some hand)).control
      rw [hrun, hrun'] at hcalculated ⊢
      exact ⟨h.threshold, h.maximum, hcalculated, h.sent⟩
  | setThreshold threshold => exact ⟨⟨rfl, h.maximum, h.calculated, h.sent⟩, rfl⟩
  | collect =>
    obtain ⟨hcontrol, hcollected⟩ := run_collect id rfl hreturns
    obtain ⟨hcontrol', hcollected'⟩ := run_collect id rfl hreturns'
    rw [hcontrol, hcontrol', hcollected, hcollected', h.duePosition_eq]
    refine ⟨⟨h.threshold, h.maximum, h.calculated, ?_⟩, rfl⟩
    rw [get?_sent_marked, get?_sent_marked, h.duePosition_eq, h.sent]

theorem Returns.occurs (h : Returns c steps) (hi : i < steps.length) :
    ∃ a, (steps[i].run (c.after (steps.take i))).value.result = .ok a :=
  h i _ _ ⟨List.getElem?_eq_getElem hi, rfl⟩

/-- Matching runs leave a servo alike after every step. -/
theorem Alike.after (h : Alike id c c')
    (hmatch : steps.Forall₂ (fun s s' => s.operation.Matches s'.operation) steps')
    (hformulas : ∀ i < steps.length, (c.after (steps.take i)).formulas.get? id =
      (c'.after (steps'.take i)).formulas.get? id)
    (hreturns : Returns c steps) (hreturns' : Returns c' steps') (i : Nat) :
    Alike id (c.after (steps.take i)) (c'.after (steps'.take i)) := by
  have hlength := hmatch.length_eq
  induction i with
  | zero => exact h
  | succ i ih =>
    by_cases hi : i < steps.length
    · have hi' : i < steps'.length := hlength ▸ hi
      have hstep := ih.step (hformulas i hi) (hmatch.get hi hi') (hreturns.occurs hi)
        (hreturns'.occurs hi')
      rw [List.take_add_one, List.take_add_one, List.getElem?_eq_getElem hi,
        List.getElem?_eq_getElem hi']
      rw [Option.toList_some, Option.toList_some, after_snoc, after_snoc]
      exact hstep.1
    · have hi' : ¬ i < steps'.length := hlength ▸ hi
      rw [List.take_of_length_le (by omega), List.take_of_length_le (by omega)] at ih ⊢
      exact ih

/-- Two runs whose operations match, in which nothing fails, and which start alike for one servo and
have the same formula for it before every step, have the same calculated position and the same mark
for it after every step and collect the same positions for it, whatever the formulas and the maxima
of the other servos are and in whatever order they are registered. -/
theorem servos_do_not_interfere (c c' : Control) (steps steps' : List Step) (id : Int)
    (halike : Alike id c c')
    (hmatch : steps.Forall₂ (fun s s' => s.operation.Matches s'.operation) steps')
    (hformulas : ∀ i < steps.length, (c.after (steps.take i)).formulas.get? id =
      (c'.after (steps'.take i)).formulas.get? id)
    (hreturns : Returns c steps) (hreturns' : Returns c' steps') :
    (∀ i, (c.after (steps.take i)).calculated.get? id =
      (c'.after (steps'.take i)).calculated.get? id ∧
      (c.after (steps.take i)).sent.get? id = (c'.after (steps'.take i)).sent.get? id) ∧
    ∀ i now s now' s', Occurs c steps i now s → Occurs c' steps' i now' s' →
      positionsOf id (s.collected now) = positionsOf id (s'.collected now') := by
  have hafter := halike.after hmatch hformulas hreturns hreturns'
  refine ⟨fun i => ⟨(hafter i).calculated, (hafter i).sent⟩, ?_⟩
  intro i now s now' s' hs hs'
  have hok := hreturns i now s hs
  have hok' := hreturns' i now' s' hs'
  obtain ⟨hs, rfl⟩ := hs
  obtain ⟨hs', rfl⟩ := hs'
  obtain ⟨hi, rfl⟩ := List.getElem?_eq_some_iff.1 hs
  obtain ⟨hi', rfl⟩ := List.getElem?_eq_some_iff.1 hs'
  exact ((hafter i).step (hformulas i hi) (hmatch.get hi hi') hok hok').2

/-- A collection returns where every servo has a valid identifier. -/
theorem collect_returns (h : ∀ id ∈ c.calculated.keys, 1 ≤ id) :
    ∃ a, (Operation.collect.answered.run c).value.result = .ok a := by
  rcases c.collect_cases with ⟨complaints, ⟨e, he, hlt⟩, -⟩ | ⟨commands, -, hcollect⟩
  · have hkey : e.1 ∈ c.calculated.keys := Table.mem_keys_iff.2 ⟨e.2, (mem_due.1 he).1⟩
    have hle := h e.1 hkey
    omega
  · exact ⟨.commands commands, congrArg (fun t => (t.map Answer.commands).result) hcollect⟩

theorem Returns.snoc (h : Returns c steps)
    (hlast : ∃ a, (s.run (c.after steps)).value.result = .ok a) : Returns c (steps ++ [s]) := by
  intro i now s' hoccurs
  rcases occurs_snoc_iff.1 hoccurs with hoccurs | ⟨-, rfl, rfl⟩
  · exact h i now s' hoccurs
  · exact hlast

/-- The second servo has another formula, which fails in one run, another maximum, and comes first.
-/
theorem servos_do_not_interfere_reordered :
    let first : Control := { maxima := .single 2 50 }
    let steps := [Operation.setFormulas (.ofList [("1", "100"), ("2", "7")]),
      .updateFormula (.id 2) "70", .process (some [])].map Operation.answered
    let steps' := [Operation.setFormulas (.ofList [("2", "1/0"), ("3", "9"), ("1", "100")]),
      .updateFormula (.id 2) "2", .process (some [])].map Operation.answered
    let collect := Operation.collect.answered
    Alike 1 first {} ∧
      (steps ++ [collect]).Forall₂ (fun s s' => s.operation.Matches s'.operation)
        (steps' ++ [collect]) ∧
      (∀ i < (steps ++ [collect]).length,
        (first.after ((steps ++ [collect]).take i)).formulas.get? 1 =
          (({} : Control).after ((steps' ++ [collect]).take i)).formulas.get? 1) ∧
      Returns first (steps ++ [collect]) ∧ Returns {} (steps' ++ [collect]) ∧
      (first.after steps).calculated.entries = [(1, 100), (2, 50)] ∧
      (({} : Control).after steps').calculated.entries = [(2, 2), (3, 9), (1, 100)] ∧
      positionsOf 1 (collect.collected (first.after steps)) =
        positionsOf 1 (collect.collected (({} : Control).after steps')) := by
  intro first steps steps' collect
  have halike : Alike 1 first {} := ⟨rfl, by decide, rfl, rfl⟩
  have hmatch : (steps ++ [collect]).Forall₂ (fun s s' => s.operation.Matches s'.operation)
      (steps' ++ [collect]) :=
    .cons (.setFormulas _ _)
      (.cons (.updateFormula _ _ _ _) (.cons (.process _) (.cons .collect .nil)))
  have hbefore : (∀ i < (steps ++ [collect]).length,
        (first.after ((steps ++ [collect]).take i)).formulas.get? 1 =
          (({} : Control).after ((steps' ++ [collect]).take i)).formulas.get? 1) ∧
      Returns first steps ∧ Returns {} steps' ∧
      (first.after steps).calculated.entries = [(1, 100), (2, 50)] ∧
      (({} : Control).after steps').calculated.entries = [(2, 2), (3, 9), (1, 100)] := by
    decide +kernel
  obtain ⟨hformulas, hsteps, hsteps', hcalculated, hcalculated'⟩ := hbefore
  have hreturns : Returns first (steps ++ [collect]) := hsteps.snoc <| collect_returns <| by
    rw [Table.keys, hcalculated]
    decide
  have hreturns' : Returns {} (steps' ++ [collect]) := hsteps'.snoc <| collect_returns <| by
    rw [Table.keys, hcalculated']
    decide
  have hsame := (servos_do_not_interfere first {} _ _ 1 halike hmatch hformulas hreturns
    hreturns').2 3 _ collect _ collect ⟨rfl, rfl⟩ ⟨rfl, rfl⟩
  exact ⟨halike, hmatch, hformulas, hreturns, hreturns', hcalculated, hcalculated', hsame⟩

end RobotHand.Control
