import RobotHand.Proofs.Control.Exchanges

/-! What each operation may change. -/
namespace RobotHand.Control

variable {c : Control}

def Operation.Changes (c c' : Control) : Operation → Prop
  | .updateFormula _ _ | .setFormulas _ => ∃ formulas, c' = { c with formulas }
  | .process none | .sendLimits _ => c' = c
  | .process (some _) => ∃ calculated, c' = { c with calculated }
  | .collect => c' = c ∨ c' = c.marked
  | .send | .sendLoop _ => ∃ sent connected, c' = { c with sent, connected }
  | .refresh => ∃ connected, c' = { c with connected }
  | .setAddress address => c' = { c with client := { c.client with address }, connected := false }
  | .setThreshold threshold => c' = { c with threshold }
  | .setInterval _ => ∃ interval, c' = { c with interval }
  | .start | .stop => ∃ loops, c' = { c with loops }

theorem updateFormula_control (servo : Servo.Reference) (formula : String) :
    ∃ formulas, (c.updateFormula servo formula).control = { c with formulas } := by
  unfold updateFormula
  split
  · split <;> exact ⟨_, rfl⟩
  · exact ⟨_, rfl⟩

theorem setFormulas_control (formulas : Table String String) :
    ∃ formulas', (c.setFormulas formulas).control = { c with formulas := formulas' } := by
  unfold setFormulas
  split <;> exact ⟨_, rfl⟩

theorem process_control (hand : List Landmark) :
    ∃ calculated, (c.process (some hand)).control = { c with calculated } := by
  unfold process
  dsimp only
  split <;> exact ⟨_, rfl⟩

theorem collect_control : c.collect.control = c ∨ c.collect.control = c.marked := by
  rcases c.collect_cases with ⟨complaints, -, h⟩ | ⟨commands, -, h⟩
  · exact .inl (congrArg Turn.control h)
  · exact .inr (congrArg Turn.control h)

theorem setInterval_control (interval : Float) :
    ∃ interval', (c.setInterval interval).control = { c with interval := interval' } := by
  unfold setInterval
  split <;> exact ⟨_, rfl⟩

theorem send_control (idle : Outcome) (script : List Outcome) :
    ∃ sent connected, (c.send.run idle script).value.control = { c with sent, connected } := by
  obtain ⟨calls, t, rest, hrun, h⟩ := c.send_run idle script
  rw [hrun]
  cases h <;> exact ⟨_, _, rfl⟩

theorem refresh_control (idle : Outcome) (script : List Outcome) :
    ∃ connected, (c.refresh.run idle script).value.control = { c with connected } := by
  by_cases h : c.client.address = ""
  · rw [refresh, if_pos h]
    exact ⟨_, rfl⟩
  · rw [refresh_eq h, Dialogue.run_ask_done]
    exact c.afterPoll_control _

theorem sendLimits_control (limits : Json) (idle : Outcome) (script : List Outcome) :
    ((c.sendLimits limits).run idle script).value.control = c := by
  unfold sendLimits
  split
  · have hbind := Dialogue.run_bind idle (c.client.sendLimits limits)
      (fun reply => .done (⟨c, [], reply.mapError .link⟩ : Turn Unit)) script
    exact congrArg (fun run => run.value.control) hbind
  · rfl

theorem sendRounds_control (polled : Float) (ticks : List Tick) (idle : Outcome)
    (script : List Outcome) :
    ∃ sent connected,
      ((c.sendRounds polled ticks).run idle script).value.control = { c with sent, connected } := by
  have hloop : Carries (fun _ c' => ∃ sent connected, c' = { c with sent, connected }) []
      (c.sendRounds polled ticks) := by
    refine .sendRounds ?_ ?_ ticks polled ⟨c.sent, c.connected, rfl⟩
    · rintro log _ ⟨sent, connected, rfl⟩ idle script
      obtain ⟨connected', h⟩ := refresh_control idle script
      exact ⟨sent, connected', h⟩
    · rintro log _ ⟨sent, connected, rfl⟩ idle script
      obtain ⟨sent', connected', h⟩ := send_control idle script
      exact ⟨sent', connected', h⟩
  exact hloop idle script

/-- The result of a program is changed without a call. -/
theorem run_map {α β : Type} (d : Dialogue (Turn α)) (f : α → β) (idle : Outcome)
    (script : List Outcome) :
    (d >>= fun t => pure (t.map f)).run idle script =
      { d.run idle script with value := (d.run idle script).value.map f } := by
  refine (Dialogue.run_bind idle d (fun t => .done (t.map f)) script).trans ?_
  change Dialogue.Run.mk _ ((d.run idle script).calls ++ []) _ = _
  rw [List.append_nil]
  rfl

theorem value_run_map {α β : Type} (d : Dialogue (Turn α)) (f : α → β) (idle : Outcome)
    (script : List Outcome) :
    ((d >>= fun t => pure (t.map f)).run idle script).value = (d.run idle script).value.map f :=
  congrArg Dialogue.Run.value (run_map d f idle script)

theorem Step.run_send (c : Control) (script : List Outcome) (idle : Outcome) :
    Step.run ⟨.send, script, idle⟩ c =
      { c.send.run idle script with value := (c.send.run idle script).value.map .flag } :=
  run_map c.send Answer.flag idle script

theorem Step.run_refresh (c : Control) (script : List Outcome) (idle : Outcome) :
    Step.run ⟨.refresh, script, idle⟩ c =
      { c.refresh.run idle script with value := (c.refresh.run idle script).value.map .status } :=
  run_map c.refresh Answer.status idle script

/-- An operation changes nothing else. -/
theorem run_changes (c : Control) (s : Step) : s.operation.Changes c (s.run c).value.control := by
  obtain ⟨operation, script, idle⟩ := s
  cases operation with
  | updateFormula servo formula => exact updateFormula_control servo formula
  | setFormulas formulas => exact setFormulas_control formulas
  | process frame =>
    cases frame with
    | none => rfl
    | some hand => exact process_control hand
  | collect => exact collect_control
  | send =>
    obtain ⟨sent, connected, h⟩ := send_control idle script
    exact ⟨sent, connected, (congrArg Turn.control (value_run_map c.send _ idle script)).trans h⟩
  | refresh =>
    obtain ⟨connected, h⟩ := refresh_control idle script
    exact ⟨connected, (congrArg Turn.control (value_run_map c.refresh _ idle script)).trans h⟩
  | sendLimits limits =>
    exact (congrArg Turn.control (value_run_map (c.sendLimits limits) _ idle script)).trans
      (sendLimits_control limits idle script)
  | setAddress address => exact setConnected_control _ false
  | setThreshold threshold => rfl
  | setInterval interval => exact setInterval_control interval
  | start | stop => exact ⟨_, rfl⟩
  | sendLoop ticks =>
    obtain ⟨sent, connected, h⟩ := sendRounds_control 0 ticks idle script
    have hmap := value_run_map (c.sendLoop ticks) Answer.waits idle script
    exact ⟨sent, connected, (congrArg Turn.control hmap).trans h⟩

variable {c' : Control} {operation : Operation}

/-- Only a frame with a hand on it changes the calculated positions. -/
theorem Operation.Changes.calculated_eq (h : operation.Changes c c')
    (hprocess : ∀ hand, operation ≠ .process (some hand)) : c'.calculated = c.calculated := by
  cases operation with
  | process frame =>
    cases frame with
    | none =>
      cases h
      rfl
    | some hand => exact absurd rfl (hprocess hand)
  | sendLimits _ | setAddress _ | setThreshold _ =>
    cases h
    rfl
  | collect => rcases h with rfl | rfl <;> rfl
  | updateFormula _ _ | setFormulas _ | refresh | setInterval _ | start | stop =>
    obtain ⟨_, rfl⟩ := h
    rfl
  | send | sendLoop _ =>
    obtain ⟨_, _, rfl⟩ := h
    rfl

/-- Only a collection, and what collects, changes the positions that are marked as sent. -/
theorem Operation.Changes.sent_eq (h : operation.Changes c c') (hcollect : operation ≠ .collect)
    (hsend : operation ≠ .send) (hloop : ∀ ticks, operation ≠ .sendLoop ticks) :
    c'.sent = c.sent := by
  cases operation with
  | process frame =>
    cases frame with
    | none =>
      cases h
      rfl
    | some hand =>
      obtain ⟨_, rfl⟩ := h
      rfl
  | sendLimits _ | setAddress _ | setThreshold _ =>
    cases h
    rfl
  | updateFormula _ _ | setFormulas _ | refresh | setInterval _ | start | stop =>
    obtain ⟨_, rfl⟩ := h
    rfl
  | collect => exact absurd rfl hcollect
  | send => exact absurd rfl hsend
  | sendLoop ticks => exact absurd rfl (hloop ticks)

/-- Only setting the threshold changes it. -/
theorem Operation.Changes.threshold_eq (h : operation.Changes c c')
    (hset : ∀ threshold, operation ≠ .setThreshold threshold) : c'.threshold = c.threshold := by
  cases operation with
  | process frame =>
    cases frame with
    | none =>
      cases h
      rfl
    | some hand =>
      obtain ⟨_, rfl⟩ := h
      rfl
  | setThreshold threshold => exact absurd rfl (hset threshold)
  | sendLimits _ | setAddress _ =>
    cases h
    rfl
  | collect => rcases h with rfl | rfl <;> rfl
  | updateFormula _ _ | setFormulas _ | refresh | setInterval _ | start | stop =>
    obtain ⟨_, rfl⟩ := h
    rfl
  | send | sendLoop _ =>
    obtain ⟨_, _, rfl⟩ := h
    rfl

/-- Only an operation that talks to the robot or points at another changes the connection. -/
theorem Operation.Changes.connection_eq (h : operation.Changes c c')
    (haddress : ∀ address, operation ≠ .setAddress address) (hsend : operation ≠ .send)
    (hrefresh : operation ≠ .refresh) (hloop : ∀ ticks, operation ≠ .sendLoop ticks) :
    c'.client = c.client ∧ c'.connected = c.connected := by
  cases operation with
  | process frame =>
    cases frame with
    | none =>
      cases h
      exact ⟨rfl, rfl⟩
    | some hand =>
      obtain ⟨_, rfl⟩ := h
      exact ⟨rfl, rfl⟩
  | sendLimits _ | setThreshold _ =>
    cases h
    exact ⟨rfl, rfl⟩
  | collect => rcases h with rfl | rfl <;> exact ⟨rfl, rfl⟩
  | updateFormula _ _ | setFormulas _ | setInterval _ | start | stop =>
    obtain ⟨_, rfl⟩ := h
    exact ⟨rfl, rfl⟩
  | setAddress address => exact absurd rfl (haddress address)
  | send => exact absurd rfl hsend
  | refresh => exact absurd rfl hrefresh
  | sendLoop ticks => exact absurd rfl (hloop ticks)

/-- Only a start and a stop change the loops. -/
theorem Operation.Changes.loops_eq (h : operation.Changes c c') (hstart : operation ≠ .start)
    (hstop : operation ≠ .stop) : c'.loops = c.loops := by
  cases operation with
  | process frame =>
    cases frame with
    | none =>
      cases h
      rfl
    | some hand =>
      obtain ⟨_, rfl⟩ := h
      rfl
  | sendLimits _ | setAddress _ | setThreshold _ =>
    cases h
    rfl
  | collect => rcases h with rfl | rfl <;> rfl
  | updateFormula _ _ | setFormulas _ | refresh | setInterval _ =>
    obtain ⟨_, rfl⟩ := h
    rfl
  | send | sendLoop _ =>
    obtain ⟨_, _, rfl⟩ := h
    rfl
  | start => exact absurd rfl hstart
  | stop => exact absurd rfl hstop

theorem threshold_after {steps : List Step}
    (h : ∀ s ∈ steps, ∀ threshold, s.operation ≠ .setThreshold threshold) :
    (c.after steps).threshold = c.threshold := by
  induction steps using List.reverseRecOn with
  | nil => rfl
  | append_singleton steps s ih =>
    have hbefore := ih fun s' hs' => h s' (List.mem_append_left [s] hs')
    have hlast := h s (List.mem_append_right steps List.mem_cons_self)
    rw [after_snoc, (run_changes _ s).threshold_eq hlast, hbefore]

end RobotHand.Control
