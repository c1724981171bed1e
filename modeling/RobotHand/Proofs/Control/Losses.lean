import RobotHand.Proofs.Control.Posting

/-! A sending that fails marks its positions as sent all the same, and they are not sent again. -/
namespace RobotHand.Control

variable {c c' : Control} {s : Step}

theorem due_congr (hcalculated : c'.calculated = c.calculated)
    (hthreshold : c'.threshold = c.threshold) (hsent : c'.sent = c.sent) : c'.due = c.due := by
  have hmoved : c'.hasMoved = c.hasMoved := by
    funext id position
    rw [hasMoved, hasMoved, hthreshold, hsent]
  rw [due, due, moved, moved, ascending, ascending, hcalculated, hmoved]

/-- With a threshold below zero, and with one that is no number, every position counts as moved. -/
theorem due_of_not_nonneg (h : ¬ 0 ≤ c.threshold) : c.due = c.ascending := by
  apply List.filter_eq_self.2
  intro e _
  have hzero : ¬ (Binary64.ofFloat c.threshold).natLe 0 := fun hle =>
    h (Binary64.natLe_zero_iff.1 hle)
  have hnear : ¬ (Binary64.ofFloat c.threshold).natLe
      (e.2 - (c.sent.get? e.1).getD 0).natAbs := fun hle =>
    hzero (Binary64.natLe_of_le (Nat.zero_le _) hle)
  simpa [hasMoved] using hnear

/-- Where nothing has moved, nothing is marked as sent. -/
theorem sent_of_idle (h : c.due = []) : (s.run c).value.control.sent = c.sent := by
  obtain ⟨operation, script, idle⟩ := s
  cases operation with
  | collect =>
    have hcontrol : c.collect.control = c := by
      rcases c.collect_control with hsame | hmarked
      · exact hsame
      · exact hmarked.trans (marked_of_idle h)
    exact congrArg sent hcontrol
  | send =>
    rw [Step.run_send, send_of_idle h]
    rfl
  | sendLoop ticks =>
    have hkept : Carries (fun _ now => now.due = [] ∧ now.sent = c.sent) []
        (c.sendRounds 0 ticks) := by
      refine .sendRounds ?_ ?_ ticks 0 ⟨h, rfl⟩
      · rintro log now ⟨hdue, hsent⟩ idle script
        obtain ⟨connected, hcontrol⟩ := refresh_control (c := now) idle script
        rw [hcontrol]
        exact ⟨hdue, hsent⟩
      · rintro log now ⟨hdue, hsent⟩
        rw [send_of_idle hdue]
        exact .done ⟨hdue, hsent⟩
    have hrun := value_run_map (c.sendLoop ticks) Answer.waits idle script
    exact (congrArg (fun t => t.control.sent) hrun).trans (hkept idle script).2
  | _ => exact (run_changes c _).sent_eq nofun nofun nofun

/-- As long as the calculated positions and the threshold stay, nothing is left to send. -/
theorem due_after_idle (h : c.due = []) {steps : List Step}
    (hkept : ∀ before, before <+: steps → (c.after before).calculated = c.calculated ∧
      (c.after before).threshold = c.threshold) : (c.after steps).due = [] := by
  induction steps using List.reverseRecOn with
  | nil => exact h
  | append_singleton steps s ih =>
    have hbefore : (c.after steps).due = [] := ih fun before hpart =>
      hkept before (hpart.trans (List.prefix_append steps [s]))
    -- The last step finds nothing to send, so that it marks nothing.
    have hsteps := hkept steps (List.prefix_append steps [s])
    have hlast := hkept (steps ++ [s]) (List.prefix_refl _)
    have hsent : (c.after (steps ++ [s])).sent = (c.after steps).sent := by
      rw [after_snoc]
      exact sent_of_idle hbefore
    rw [← hbefore]
    exact due_congr (hlast.1.trans hsteps.1.symm) (hlast.2.trans hsteps.2.symm) hsent

theorem sent_ne_of_due {e : Int × Int} (hthreshold : 0 ≤ c.threshold) (he : e ∈ c.due) :
    c.sent.get? e.1 ≠ some e.2 := by
  intro hsent
  exact not_hasMoved_of_sent hthreshold hsent (mem_due.1 he).2

/-- A sending that asks for something has commands to post. -/
theorem exists_commands {idle : Outcome} {script : List Outcome}
    (h : (c.send.run idle script).calls ≠ []) :
    c.ready ∧ ∃ commands, commands ≠ [] ∧ c.due = commands.map Servo.Command.entry := by
  obtain ⟨calls, t, rest, hrun, hsending⟩ := c.send_run idle script
  rw [hrun] at h
  cases hsending with
  | notReady | invalid | idle => exact absurd rfl h
  | posted hready hdue hne | failed hready hdue hne => exact ⟨hready, _, hne, hdue⟩

theorem requests_of_due {commands : List Servo.Command} (hready : c.ready)
    (hdue : c.due = commands.map Servo.Command.entry) (hne : commands ≠ [])
    (script : List Outcome) (idle : Outcome) :
    Step.requests ⟨.send, script, idle⟩ c = [c.posting commands] := by
  rw [Step.requests, Step.run_send, send_run_of_due hready hdue hne]
  rfl

theorem run_of_fails {commands : List Servo.Command} (hready : c.ready)
    (hdue : c.due = commands.map Servo.Command.entry) (hne : commands ≠ [])
    {script : List Outcome} {idle : Outcome} (hfails : (script.headD idle).Fails) :
    (Step.run ⟨.send, script, idle⟩ c).value =
      ⟨{ c.marked with connected := false }, [.connection false], .ok (.flag false)⟩ := by
  rw [Step.run_send, send_run_of_due hready hdue hne, afterPost_of_fails hready hfails]
  rfl

/-- When the request of a sending fails, the sending tells so, but its positions are marked as sent.
The marks are what they were exactly if all these positions were marked before, which they are not
if the threshold is zero or more. Then, however the connection comes back, a later sending posts
nothing, as long as the calculated positions and the threshold stay; with any other threshold it
posts the same positions again. -/
theorem failed_sending_is_not_repeated (c : Control) (s : Step) (hs : s.operation = .send)
    (hposted : (s.run c).calls ≠ []) (hfails : (s.outcomes.headD s.idle).Fails) :
    let later := (s.run c).value.control
    (s.run c).value.result = .ok (.flag false) ∧
      (later.sent = c.sent ↔ ∀ e ∈ c.due, c.sent.get? e.1 = some e.2) ∧
      (0 ≤ c.threshold → later.sent ≠ c.sent) ∧
      ∀ (between : List Step) (again : Step), again.operation = .send →
        (∀ before, before <+: between → (later.after before).calculated = c.calculated ∧
          (later.after before).threshold = c.threshold) →
        (later.after between).ready →
          (0 ≤ c.threshold → (again.run (later.after between)).calls = []) ∧
          ((again.requests (later.after between)).map Request.commands =
              (s.requests c).map Request.commands ↔ ¬ 0 ≤ c.threshold) := by
  intro later
  obtain ⟨operation, script, idle⟩ := s
  cases hs
  rw [Step.run_send] at hposted
  obtain ⟨hready, commands, hne, hdue⟩ := exists_commands hposted
  have hrun := run_of_fails hready hdue hne hfails
  have hlater : later = { c.marked with connected := false } := congrArg Turn.control hrun
  have hsame : later.sent = c.sent ↔ ∀ e ∈ c.due, c.sent.get? e.1 = some e.2 := by
    rw [hlater]
    constructor
    · intro heq e he
      rw [← heq]
      exact Table.get?_putAll_of_mem c.nodup_keys_due he c.sent
    · exact Table.putAll_eq_self
  refine ⟨congrArg Turn.result hrun, hsame, fun hthreshold heq => ?_, ?_⟩
  · obtain ⟨command, hcommand⟩ := List.exists_mem_of_ne_nil commands hne
    have he : command.entry ∈ c.due := hdue ▸ List.mem_map_of_mem hcommand
    exact sent_ne_of_due hthreshold he (hsame.1 heq _ he)
  · rintro between ⟨operation, script', idle'⟩ hagain hkept hready'
    cases hagain
    have hquiet : 0 ≤ c.threshold →
        (Step.run ⟨.send, script', idle'⟩ (later.after between)).calls = [] := by
      intro hthreshold
      have hidle : later.due = [] := by
        rw [hlater]
        exact due_marked hthreshold
      have hidle' : (later.after between).due = [] := by
        apply due_after_idle hidle
        rw [hlater] at hkept ⊢
        exact hkept
      rw [Step.run_send, send_of_idle hidle']
      rfl
    refine ⟨hquiet, fun heq hthreshold => ?_, fun hthreshold => ?_⟩
    · rw [Step.requests, hquiet hthreshold, requests_of_due hready hdue hne] at heq
      cases heq
    · -- All positions are due then, whatever is marked.
      obtain ⟨hcalculated, hsamethreshold⟩ := hkept between (List.prefix_refl _)
      have hdue' : (later.after between).due = c.due := by
        rw [due_of_not_nonneg hthreshold, due_of_not_nonneg (hsamethreshold ▸ hthreshold),
          ascending, ascending, hcalculated]
      rw [requests_of_due hready' (hdue'.trans hdue) hne, requests_of_due hready hdue hne,
        List.map_singleton, List.map_singleton, commands_posting, commands_posting]

def refusedSend : Step := { operation := .send, idle := .failed "refused" }

theorem calls_refusedSend : (refusedSend.run waiting).calls ≠ [] := by
  rw [refusedSend, send_waiting]
  exact List.cons_ne_nil _ _

theorem run_refusedSend :
    (refusedSend.run waiting).value =
      ⟨{ served with connected := false }, [.connection false], .ok (.flag false)⟩ := by
  have hfails : (refusedSend.outcomes.headD refusedSend.idle).Fails := trivial
  rw [← marked_waiting]
  exact run_of_fails waiting_spec.1 due_waiting (List.cons_ne_nil _ _) hfails

/-- The robot answers again. -/
def reconnected : Control :=
  ({ served with connected := false } : Control).after [Operation.refresh.answered]

theorem reconnected_spec :
    reconnected.ready ∧ reconnected.calculated.entries = [(1, 100)] ∧
      reconnected.calculated = waiting.calculated ∧ reconnected.threshold = waiting.threshold ∧
      reconnected.moved [(1, 100)] = [] := by
  decide +kernel

theorem after_refusedSend :
    (refusedSend.run waiting).value.control.after [Operation.refresh.answered] = reconnected := by
  rw [run_refusedSend]
  rfl

/-- The second sending is ready, and nothing comes of it. -/
theorem failed_sending_is_not_repeated_refused :
    let later := (refusedSend.run waiting).value.control
    refusedSend.operation = .send ∧ (refusedSend.run waiting).calls ≠ [] ∧
      (refusedSend.outcomes.headD refusedSend.idle).Fails ∧ 0 ≤ waiting.threshold ∧
      later.sent ≠ waiting.sent ∧ (later.after [Operation.refresh.answered]).ready ∧
      (Operation.send.answered.run (later.after [Operation.refresh.answered])).calls = [] := by
  intro later
  obtain ⟨hready, -, hcalculated, hsame, -⟩ := reconnected_spec
  have hfails : (refusedSend.outcomes.headD refusedSend.idle).Fails := trivial
  have hthreshold : 0 ≤ waiting.threshold := waiting_spec.2.2.2.1
  have hlater : later = { served with connected := false } := congrArg Turn.control run_refusedSend
  have hnow : later.after [Operation.refresh.answered] = reconnected := after_refusedSend
  rw [← hnow] at hready hcalculated hsame
  have hkept : ∀ before, before <+: [Operation.refresh.answered] →
      (later.after before).calculated = waiting.calculated ∧
        (later.after before).threshold = waiting.threshold := by
    intro before hbefore
    have hsplit : before <+: [] ++ [Operation.refresh.answered] := hbefore
    rcases List.prefix_concat_iff.1 hsplit with rfl | hnil
    · exact ⟨hcalculated, hsame⟩
    · rw [List.prefix_nil.1 hnil, hlater]
      exact ⟨rfl, rfl⟩
  obtain ⟨-, -, hlost, hrepeated⟩ :=
    failed_sending_is_not_repeated waiting refusedSend rfl calls_refusedSend hfails
  have hquiet := (hrepeated _ Operation.send.answered rfl hkept hready).1 hthreshold
  exact ⟨rfl, calls_refusedSend, hfails, hthreshold, hlost hthreshold, hready, hquiet⟩

/-- The robot refuses a position and then answers a poll, and the position is not sent again. -/
theorem refused_position_is_lost :
    let later := (refusedSend.run waiting).value.control
    let now := later.after [Operation.refresh.answered]
    let again := Operation.send.answered
    waiting.ready ∧ (refusedSend.run waiting).calls ≠ [] ∧
      (refusedSend.outcomes.headD refusedSend.idle).Fails ∧
      (refusedSend.run waiting).value.result = .ok (.flag false) ∧ now.ready ∧
      now.calculated = waiting.calculated ∧ now.threshold = waiting.threshold ∧
      later.sent ≠ waiting.sent ∧
      (again.requests now).map Request.commands ≠
        (refusedSend.requests waiting).map Request.commands := by
  intro later now again
  obtain ⟨hready, hentries, hcalculated, hthreshold, hmoved⟩ := reconnected_spec
  have hnow : now = reconnected := after_refusedSend
  have hsent : later.sent = .single 1 100 :=
    congrArg (fun t => t.control.sent) run_refusedSend
  have hbefore : waiting.sent = .empty := waiting_spec.2.2.1
  have hdue : reconnected.due = [] := (due_of_single hentries).trans hmoved
  have hagain : again.requests now = [] := by
    change requests (Operation.send.answered.run now).calls = _
    rw [hnow, Operation.answered, Step.run_send, send_of_idle hdue]
    rfl
  have hfirst : refusedSend.requests waiting = [waiting.posting [waitingCommand]] :=
    requests_of_due waiting_spec.1 due_waiting (List.cons_ne_nil _ _) _ _
  rw [hnow, hsent, hbefore, ← hnow, hagain, hfirst]
  refine ⟨waiting_spec.1, calls_refusedSend, trivial, congrArg Turn.result run_refusedSend, ?_⟩
  rw [hnow]
  exact ⟨hready, hcalculated, hthreshold, by decide, (List.cons_ne_nil _ _).symm⟩

end RobotHand.Control
