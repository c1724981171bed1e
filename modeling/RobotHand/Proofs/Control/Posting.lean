import RobotHand.Proofs.Control.Effects

/-! What has been posted to robots, which is what is marked as sent. -/
namespace RobotHand

/-- A command is read back from what is written of it. -/
theorem Servo.Command.check_json (command : Servo.Command) :
    (Servo.Command.check command.json).toExcept = .ok command := by
  obtain ⟨id, position, h⟩ := command
  have hid : (Document.integer (.int id)).andThen checkId = .ok ⟨id, h⟩ := dif_pos h
  change (ofChecked <$> ((Document.integer (.int id)).andThen checkId).under (.field "id")
    <*> (Document.integer (.int position)).under (.field "position")).toExcept = _
  rw [hid]
  rfl

def Request.commands (r : Request) : List Servo.Command :=
  match r.body with
  | some (.array items) => items.filterMap fun item => (Servo.Command.check item).toExcept.toOption
  | _ => []

theorem Control.commands_posting (c : Control) (commands : List Servo.Command) :
    (c.posting commands).commands = commands := by
  change (commands.map Servo.Command.json).filterMap _ = commands
  rw [List.filterMap_map]
  have hread : ∀ command : Servo.Command,
      (Servo.Command.check command.json).toExcept.toOption = some command := by
    intro command
    rw [command.check_json]
    rfl
  exact (List.filterMap_congr fun command _ => hread command).trans List.filterMap_some

theorem Client.commands_polling (client : Client) : client.polling.commands = [] := rfl

/-- The last position that requests post for each servo. -/
def posted (log : List Request) : Table Int Int :=
  .ofList ((log.flatMap Request.commands).map Servo.Command.entry)

theorem posted_snoc (log : List Request) (r : Request) :
    posted (log ++ [r]) = (posted log).putAll (r.commands.map Servo.Command.entry) := by
  unfold posted
  rw [List.flatMap_append, List.flatMap_singleton, List.map_append]
  exact List.foldl_append

/-- Requests that post nothing do not count. -/
theorem posted_filter {p : Request → Bool} {log : List Request}
    (h : ∀ r ∈ log, r.commands ≠ [] → p r) : posted (log.filter p) = posted log := by
  have hcommands : (log.filter p).flatMap Request.commands = log.flatMap Request.commands := by
    induction log with
    | nil => rfl
    | cons r log ih =>
      have hrest := ih fun r' hr' => h r' (List.mem_cons_of_mem r hr')
      by_cases hr : p r
      · rw [List.filter_cons_of_pos hr, List.flatMap_cons, List.flatMap_cons, hrest]
      · have hnone : r.commands = [] := by
          by_contra hsome
          exact hr (h r List.mem_cons_self hsome)
        rw [List.filter_cons_of_neg hr, List.flatMap_cons, hnone, hrest]
        rfl
  rw [posted, hcommands]
  rfl

namespace Control

variable {c now : Control} {steps : List Step} {s : Step} {log : List Request}
  {events : List Event}

/-- The requests of a step, unless it passes on limits. -/
def Step.requests (s : Step) (now : Control) : List Request :=
  match s.operation with
  | .sendLimits _ => []
  | _ => RobotHand.requests (s.run now).calls

def requestsOf (c : Control) : List Step → List Request
  | [] => []
  | s :: steps => s.requests c ++ (s.run c).value.control.requestsOf steps

theorem requestsOf_append (c : Control) (steps later : List Step) :
    c.requestsOf (steps ++ later) = c.requestsOf steps ++ (c.after steps).requestsOf later := by
  induction steps generalizing c with
  | nil => rfl
  | cons s steps ih =>
    rw [List.cons_append, requestsOf, ih, requestsOf, List.append_assoc]
    rfl

theorem requestsOf_snoc (c : Control) (steps : List Step) (s : Step) :
    c.requestsOf (steps ++ [s]) = c.requestsOf steps ++ s.requests (c.after steps) := by
  rw [requestsOf_append, requestsOf, requestsOf, List.append_nil]

/-- Polls and sendings, one after the other, make these requests, tell these events and lead to this
state. -/
def AmountsTo (c : Control) (log : List Request) (events : List Event) (now : Control) : Prop :=
  ∃ steps : List Step, (∀ s ∈ steps, s.operation = .refresh ∨ s.operation = .send) ∧
    now = c.after steps ∧ log = c.requestsOf steps ∧ events = c.eventsOf steps

theorem AmountsTo.step (h : AmountsTo c log events now)
    (hs : s.operation = .refresh ∨ s.operation = .send) :
    AmountsTo c (log ++ s.requests now) (events ++ (s.run now).value.events)
      (s.run now).value.control := by
  obtain ⟨steps, hall, rfl, rfl, rfl⟩ := h
  refine ⟨steps ++ [s], ?_, (after_snoc c steps s).symm, (requestsOf_snoc c steps s).symm,
    (eventsOf_snoc c steps s).symm⟩
  exact List.forall_mem_append.2 ⟨hall, List.forall_mem_singleton.2 hs⟩

/-- The send loop does nothing but poll and send. -/
theorem sendLoop_amountsTo (c : Control) (ticks : List Tick) (idle : Outcome)
    (script : List Outcome) :
    let loop := (c.sendLoop ticks).run idle script
    AmountsTo c (requests loop.calls) loop.value.events loop.value.control := by
  let R (log : List (Request × Outcome)) (events : List Event) (now : Control) : Prop :=
    AmountsTo c (log.map Prod.fst) events now
  have hpoll : ∀ log events now, R log events now → Evolves R log events now.refresh := by
    intro log events now h idle script
    have hstep := @AmountsTo.step c now ⟨.refresh, script, idle⟩ _ events h (.inl rfl)
    rw [Step.requests, Step.run_refresh] at hstep
    change AmountsTo c (List.map Prod.fst (log ++ _)) _ _
    rw [List.map_append, Dialogue.map_fst_transcript]
    exact hstep
  have hsend : ∀ log events now, R log events now → Evolves R log events now.send := by
    intro log events now h idle script
    have hstep := @AmountsTo.step c now ⟨.send, script, idle⟩ _ events h (.inr rfl)
    rw [Step.requests, Step.run_send] at hstep
    change AmountsTo c (List.map Prod.fst (log ++ _)) _ _
    rw [List.map_append, Dialogue.map_fst_transcript]
    exact hstep
  intro loop
  have hstart : R [] [] c := ⟨[], nofun, rfl, rfl, rfl⟩
  have hloop : Evolves R [] [] (c.sendLoop ticks) := .sendRounds hpoll hsend ticks 0 hstart
  rw [← Dialogue.map_fst_transcript]
  exact hloop idle script

theorem carries_refresh (h : c.sent = posted log) :
    Carries (fun log c => c.sent = posted log) log c.refresh := by
  by_cases haddress : c.client.address = ""
  · rw [refresh, if_pos haddress]
    exact .done h
  · rw [refresh_eq haddress]
    apply Carries.ask
    intro o
    obtain ⟨connected, hcontrol⟩ := c.afterPoll_control o
    rw [hcontrol, posted_snoc, Client.commands_polling]
    exact h

theorem carries_send (h : c.sent = posted log) :
    Carries (fun log c => c.sent = posted log) log c.send := by
  intro idle script
  obtain ⟨calls, t, rest, hrun, hsending⟩ := c.send_run idle script
  rw [hrun]
  cases hsending with
  | notReady | invalid | idle =>
    have hlog : log ++ requests [] = log := List.append_nil log
    rw [hlog]
    exact h
  | posted _ hdue | failed _ hdue =>
    -- The request posts what is due, which is what is marked, whatever becomes of the request.
    change c.sent.putAll c.due = posted (log ++ [c.posting _])
    rw [posted_snoc, commands_posting, ← hdue, h]

theorem sent_eq_posted_step (hcollect : s.operation ≠ .collect) (h : now.sent = posted log) :
    (s.run now).value.control.sent = posted (log ++ s.requests now) := by
  have hdone : ∀ {α : Type} (f : α → Answer) (log : List Request) (t : Turn α),
      t.control.sent = posted log →
        Carries (fun log c => c.sent = posted log) log (.done (t.map f)) :=
    fun f log t ht => .done ht
  obtain ⟨operation, script, idle⟩ := s
  cases operation with
  | collect => exact absurd rfl hcollect
  | send => exact ((carries_send h).bind (hdone .flag)) idle script
  | refresh => exact ((carries_refresh h).bind (hdone .status)) idle script
  | sendLoop ticks =>
    have hloop :=
      Carries.sendRounds (fun _ _ => carries_refresh) (fun _ _ => carries_send) ticks 0 h
    exact (hloop.bind (hdone .waits)) idle script
  | _ =>
    change _ = posted (log ++ [])
    rw [List.append_nil, ← h]
    exact (run_changes now _).sent_eq nofun nofun nofun

/-- If positions are collected only to be sent, those marked as sent are the last ones posted,
whether or not the robot has taken them, and to whatever address. -/
theorem sent_eq_posted (hfresh : c.sent = .empty)
    (hcollect : ∀ s ∈ steps, s.operation ≠ .collect) :
    (c.after steps).sent = posted (c.requestsOf steps) := by
  induction steps using List.reverseRecOn with
  | nil => exact hfresh
  | append_singleton steps s ih =>
    have hbefore := ih fun s' hs' => hcollect s' (List.mem_append_left [s] hs')
    have hlast : s.operation ≠ .collect :=
      hcollect s (List.mem_append_right steps List.mem_cons_self)
    rw [after_snoc, requestsOf_snoc]
    exact sent_eq_posted_step hlast hbefore

/-- Every calculated position is within the threshold of a last one, which is zero for a servo that
has none. -/
def UpToDate (now : Control) (last : Table Int Int) : Prop :=
  ∀ id p, now.calculated.get? id = some p →
    (Binary64.ofFloat now.threshold).natLe (p - (last.get? id).getD 0).natAbs

theorem due_eq_nil_iff : c.due = [] ↔ UpToDate c c.sent := by
  rw [List.eq_nil_iff_forall_not_mem]
  constructor
  · intro h id p hp
    by_contra hnear
    have hmoved : c.hasMoved id p := by simpa [hasMoved] using hnear
    exact h (id, p) (mem_due.2 ⟨hp, hmoved⟩)
  · intro h e he
    obtain ⟨hcalculated, hmoved⟩ := mem_due.1 he
    have hnear := h e.1 e.2 hcalculated
    simp [hasMoved, hnear] at hmoved

/-- Nothing is left to send once a control that is ready has sent. -/
theorem due_of_send (hready : c.ready) (hids : ∀ id ∈ c.calculated.keys, 1 ≤ id)
    (hthreshold : 0 ≤ c.threshold) (idle : Outcome) (script : List Outcome) :
    (c.send.run idle script).value.control.due = [] := by
  obtain ⟨calls, t, rest, hrun, hsending⟩ := c.send_run idle script
  rw [hrun]
  cases hsending with
  | notReady hnot => exact absurd hready hnot
  | invalid _ hinvalid =>
    obtain ⟨e, he, hlt⟩ := hinvalid
    have hkey : e.1 ∈ c.calculated.keys := Table.mem_keys_iff.2 ⟨e.2, (mem_due.1 he).1⟩
    have hle := hids e.1 hkey
    omega
  | idle _ hdue => exact hdue
  | posted | failed => exact due_marked hthreshold

/-- The requests that went to the robot that a control points at. -/
def received (now : Control) (log : List Request) : List Request :=
  log.filter fun r => r.url = now.client.servos

/-- Right after a sending of a control that is ready, every calculated position is within the
threshold of the last one posted for its servo, to whatever address. It is so for what was posted
to the present address if nothing was posted elsewhere, and in general exactly if it is so for the
servos for which something else was posted elsewhere in the meantime. The sendings of a send loop
are among these, as the loop does what polls and sendings do, one after the other. -/
theorem sending_brings_up_to_date (c : Control) (hfresh : c.sent = .empty) (steps : List Step)
    (hcollect : ∀ s ∈ steps, s.operation ≠ .collect) (hready : (c.after steps).ready)
    (hids : ∀ id ∈ (c.after steps).calculated.keys, 1 ≤ id)
    (hthreshold : 0 ≤ (c.after steps).threshold) (s : Step) (hs : s.operation = .send) :
    let now := c.after (steps ++ [s])
    let log := c.requestsOf (steps ++ [s])
    let here := received now log
    UpToDate now (posted log) ∧
      ((∀ r ∈ log, r.commands ≠ [] → r.url = now.client.servos) → UpToDate now (posted here)) ∧
      (UpToDate now (posted here) ↔
        ∀ id p, now.calculated.get? id = some p →
          (posted here).get? id ≠ (posted log).get? id →
            (Binary64.ofFloat now.threshold).natLe
              (p - ((posted here).get? id).getD 0).natAbs) ∧
      ∀ ticks idle script,
        let loop := ((c.after steps).sendLoop ticks).run idle script
        AmountsTo (c.after steps) (requests loop.calls) loop.value.events loop.value.control := by
  intro now log here
  have hdue : now.due = [] := by
    obtain ⟨operation, script, idle⟩ := s
    cases hs
    change (c.after (steps ++ [_])).due = []
    rw [after_snoc, Step.run_send]
    exact due_of_send hready hids hthreshold idle script
  have hsent : now.sent = posted log := by
    apply sent_eq_posted hfresh
    intro s' hs'
    rcases List.mem_append.1 hs' with hs' | hs'
    · exact hcollect s' hs'
    · rw [List.mem_singleton.1 hs', hs]
      exact nofun
  have hall : UpToDate now (posted log) := hsent ▸ due_eq_nil_iff.1 hdue
  refine ⟨hall, fun hhere => ?_, ⟨fun h id p hp _ => h id p hp, fun h id p hp => ?_⟩,
    sendLoop_amountsTo _⟩
  · have hsame : posted here = posted log :=
      posted_filter fun r hr hsome => decide_eq_true (hhere r hr hsome)
    rw [hsame]
    exact hall
  · by_cases hsame : (posted here).get? id = (posted log).get? id
    · rw [hsame]
      exact hall id p hp
    · exact h id p hp hsame

/-- A step whose requests succeed. -/
def Operation.answered (operation : Operation) : Step :=
  { operation, idle := .answered 200 (.ok .null) }

/-- A control that points at a robot. -/
def installed : Control := { client := { address := "a" } }

/-- One servo has a position to send, and the robot answers. -/
def preparation : List Step :=
  [.updateFormula (.id 1) "100", .process (some []), .refresh].map Operation.answered

def waiting : Control := installed.after preparation

def waitingCommand : Servo.Command := ⟨1, 100, by decide⟩

theorem waiting_spec :
    waiting.ready ∧ waiting.calculated.entries = [(1, 100)] ∧ waiting.sent = .empty ∧
      0 ≤ waiting.threshold ∧ waiting.moved [(1, 100)] = [(1, 100)] := by
  decide +kernel

theorem due_waiting : waiting.due = [waitingCommand].map Servo.Command.entry := by
  obtain ⟨-, hcalculated, -, -, hmoved⟩ := waiting_spec
  rw [due_of_single hcalculated]
  exact hmoved

def served : Control := { waiting with sent := .single 1 100 }

theorem marked_waiting : waiting.marked = served := by
  have hsent : waiting.sent = .empty := waiting_spec.2.2.1
  rw [marked, due_waiting, hsent]
  rfl

theorem send_waiting (o : Outcome) :
    ({ operation := .send, idle := o } : Step).run waiting =
      ⟨(waiting.afterPost o).map .flag, [.request (waiting.posting [waitingCommand])], []⟩ := by
  rw [Step.run_send, send_run_of_due waiting_spec.1 due_waiting (List.cons_ne_nil _ _)]
  rfl

theorem after_send_waiting : waiting.after [Operation.send.answered] = served := by
  have hrun := send_waiting (.answered 200 (.ok .null))
  rw [← marked_waiting]
  exact congrArg (fun run => run.value.control) hrun

/-- A position is sent to the only robot that there has been. -/
theorem sending_brings_up_to_date_waiting :
    let s := Operation.send.answered
    installed.sent = .empty ∧ (∀ s ∈ preparation, s.operation ≠ .collect) ∧ waiting.ready ∧
      (∀ id ∈ waiting.calculated.keys, 1 ≤ id) ∧ 0 ≤ waiting.threshold ∧ s.operation = .send ∧
      UpToDate (installed.after (preparation ++ [s]))
        (posted (installed.requestsOf (preparation ++ [s]))) := by
  intro s
  have hcollect : ∀ s ∈ preparation, s.operation ≠ .collect := by
    simp [preparation, Operation.answered]
  obtain ⟨hready, hcalculated, -, hthreshold, -⟩ := waiting_spec
  have hids : ∀ id ∈ waiting.calculated.keys, 1 ≤ id := by
    rw [Table.keys, hcalculated]
    decide
  have hsent := sending_brings_up_to_date installed rfl preparation hcollect hready hids hthreshold
    s rfl
  exact ⟨rfl, hcollect, hready, hids, hthreshold, rfl, hsent.1⟩

/-- Another robot takes the place of the first. -/
def relocation : List Step := [.setAddress "b", .refresh].map Operation.answered

def relocated : Control := served.after relocation

/-- What is asked for before the last sending. -/
def relocationLog : List Request :=
  installed.requestsOf preparation ++ [waiting.posting [waitingCommand]] ++
    served.requestsOf relocation

theorem relocated_spec :
    relocated.ready ∧ relocated.calculated.entries = [(1, 100)] ∧ 0 ≤ relocated.threshold ∧
      relocated.moved [(1, 100)] = [] ∧
      (posted (received relocated relocationLog)).get? 1 = none ∧
      ¬ (Binary64.ofFloat relocated.threshold).natLe 100 := by
  decide +kernel

theorem send_relocated :
    Operation.send.answered.run relocated = ⟨⟨relocated, [], .ok (.flag false)⟩, [], []⟩ := by
  obtain ⟨-, hcalculated, -, hmoved, -⟩ := relocated_spec
  have hdue : relocated.due = [] := (due_of_single hcalculated).trans hmoved
  rw [Operation.answered, Step.run_send, send_of_idle hdue]
  rfl

/-- No request fails, and still the second robot is never sent the position of the servo, since the
first one was. -/
theorem relocated_robot_is_not_up_to_date :
    let steps := preparation ++ [Operation.send.answered] ++ relocation
    let s := Operation.send.answered
    let now := installed.after (steps ++ [s])
    let log := installed.requestsOf (steps ++ [s])
    installed.sent = .empty ∧ (∀ s ∈ steps, s.operation ≠ .collect) ∧
      (∀ s' ∈ steps ++ [s], ∀ o ∈ s'.idle :: s'.outcomes, ¬ o.Fails) ∧
      (installed.after steps).ready ∧ (∀ id ∈ (installed.after steps).calculated.keys, 1 ≤ id) ∧
      0 ≤ (installed.after steps).threshold ∧ ¬ UpToDate now (posted (received now log)) := by
  intro steps s now log
  have hsteps : installed.after steps = relocated := by
    change installed.after (preparation ++ [Operation.send.answered] ++ relocation) = _
    rw [after_append, after_append]
    exact congrArg (·.after relocation) after_send_waiting
  have hnow : now = relocated := by
    change installed.after (steps ++ [s]) = _
    rw [after_snoc, hsteps, send_relocated]
  have hlog : log = relocationLog := by
    have hwaiting : installed.after preparation = waiting := rfl
    have hfirst :
        Operation.send.answered.requests waiting = [waiting.posting [waitingCommand]] := by
      change requests (Operation.send.answered.run waiting).calls = _
      rw [Operation.answered, send_waiting]
      rfl
    have hsecond : s.requests relocated = [] := by
      change requests (Operation.send.answered.run relocated).calls = _
      rw [send_relocated]
      rfl
    change installed.requestsOf (preparation ++ [Operation.send.answered] ++ relocation ++ [s]) = _
    rw [requestsOf_snoc, hsteps, hsecond, List.append_nil, requestsOf_append, requestsOf_snoc,
      after_append, hwaiting, after_send_waiting, hfirst, relocationLog]
  obtain ⟨hready, hcalculated, hthreshold, -, hnone, hfar⟩ := relocated_spec
  refine ⟨rfl, ?_, by decide, ?_, ?_, ?_, ?_⟩
  · simp [steps, preparation, relocation, Operation.answered]
  · rw [hsteps]
    exact hready
  · rw [hsteps, Table.keys, hcalculated]
    decide
  · rw [hsteps]
    exact hthreshold
  · intro h
    rw [hnow, hlog] at h
    have hentry : relocated.calculated.get? 1 = some 100 := by
      rw [Table.get?, hcalculated]
      rfl
    have hnear := h 1 100 hentry
    rw [hnone] at hnear
    exact hfar hnear

end Control
end RobotHand
