import RobotHand.Proofs.Control.Effects
import RobotHand.Proofs.Control.Gates

/-! An operation that fails changes nothing, except that a formula is stored before it is logged. -/
namespace RobotHand.Control

open Formula (validate)

variable {α β : Type} {c : Control} {fault : Fault → Prop}

/-- If a turn fails, it is with one of some faults, and the control is what it was. -/
def Turn.FailsUnchanged (c : Control) (fault : Fault → Prop) (t : Turn α) : Prop :=
  ∀ e, t.result = .error e → t.control = c ∧ fault e

theorem Turn.FailsUnchanged.map {t : Turn α} (h : t.FailsUnchanged c fault) (f : α → β) :
    (t.map f).FailsUnchanged c fault := by
  intro e he
  refine h e ?_
  change t.result.map f = .error e at he
  cases hresult : t.result with
  | error e' =>
    rw [hresult] at he
    exact congrArg Except.error (Except.error.inj he)
  | ok a =>
    rw [hresult] at he
    cases he

theorem failsUnchanged_ok {t : Turn α} {a : α} (h : t.result = .ok a) :
    t.FailsUnchanged c fault := by
  intro e he
  rw [h] at he
  cases he

theorem failsUnchanged_error {e : Fault} (h : fault e) :
    (⟨c, [], .error e⟩ : Turn α).FailsUnchanged c fault := by
  intro e' he
  cases he
  exact ⟨rfl, h⟩

theorem Turn.FailsUnchanged.run_map {d : Dialogue (Turn α)} {idle : Outcome}
    {script : List Outcome} (h : (d.run idle script).value.FailsUnchanged c fault) (f : α → β) :
    ((d >>= fun t => pure (t.map f)).run idle script).value.FailsUnchanged c fault := by
  rw [value_run_map]
  exact h.map f

/-- The faults that an operation itself may end in: an identifier that is none, formulas that break
down, an invalid command, a request that is not made or not answered, a body that its reader cannot
take, and an interval that is not positive. -/
def Operation.MayEndIn (e : Fault) : Operation → Prop
  | .updateFormula servo _ => ∃ cause, servo.resolve = .error cause ∧ e = .breakdown cause
  | .setFormulas _ | .process (some _) => ∃ cause, e = .breakdown cause
  | .collect | .send => ∃ complaints, e = .invalidCommand complaints
  | .refresh => ∃ reason, e = .link (.overwhelmed reason)
  | .sendLimits _ => e = .notConnected ∨ ∃ cause, e = .link cause
  | .setInterval _ => e = .nonPositiveInterval
  | _ => False

theorem logged_eq_error {servo : Servo.Reference} {a : α} {e : Fault}
    (h : (c.logged servo a).result = .error e) :
    (∃ id, servo = .id id ∧ ¬ Integer.isShort id) ∧ e = .breakdown .tooLongToWrite := by
  unfold logged at h
  dsimp only at h
  cases hlog : servo.log with
  | ok =>
    rw [hlog] at h
    cases h
  | error cause =>
    rw [hlog] at h
    cases h
    obtain ⟨hservo, rfl⟩ := Servo.Reference.log_eq_error_iff.1 hlog
    exact ⟨hservo, rfl⟩

/-- An update fails at an identifier that is none, or after all else, when it cannot be logged. -/
theorem updateFormula_eq_error {servo : Servo.Reference} {formula : String} {e : Fault}
    (h : (c.updateFormula servo formula).result = .error e) :
    ((c.updateFormula servo formula).control = c ∧
        ∃ cause, servo.resolve = .error cause ∧ e = .breakdown cause) ∨
      (∃ id, servo = .id id ∧ ¬ Integer.isShort id) ∧ e = .breakdown .tooLongToWrite := by
  unfold updateFormula at h ⊢
  split at h
  · next haccepted =>
    rw [if_pos haccepted]
    split at h
    · exact .inr (logged_eq_error h)
    · next cause hcause =>
      cases h
      exact .inl ⟨rfl, cause, hcause, rfl⟩
  · exact .inr (logged_eq_error h)

theorem setFormulas_failsUnchanged (formulas : Table String String) :
    (c.setFormulas formulas).FailsUnchanged c fun e => ∃ cause, e = .breakdown cause := by
  unfold setFormulas
  split
  · exact failsUnchanged_ok rfl
  · exact failsUnchanged_error ⟨_, rfl⟩

theorem process_failsUnchanged (hand : List Landmark) :
    (c.process (some hand)).FailsUnchanged c fun e => ∃ cause, e = .breakdown cause := by
  unfold process
  dsimp only
  split
  · exact failsUnchanged_error ⟨_, rfl⟩
  · exact failsUnchanged_ok rfl

/-- The identifiers ascend, so that an invalid one comes before everything that is marked. -/
theorem collect_failsUnchanged :
    c.collect.FailsUnchanged c fun e => ∃ complaints, e = .invalidCommand complaints := by
  rcases c.collect_cases with ⟨complaints, -, h⟩ | ⟨commands, -, h⟩
  · rw [h]
    exact failsUnchanged_error ⟨_, rfl⟩
  · rw [h]
    exact failsUnchanged_ok rfl

theorem send_failsUnchanged (idle : Outcome) (script : List Outcome) :
    (c.send.run idle script).value.FailsUnchanged c
      fun e => ∃ complaints, e = .invalidCommand complaints := by
  obtain ⟨calls, t, rest, hrun, h⟩ := c.send_run idle script
  rw [hrun]
  cases h with
  | invalid => exact failsUnchanged_error ⟨_, rfl⟩
  | _ => exact failsUnchanged_ok rfl

/-- A poll has a result unless the reader of the answer breaks down. -/
theorem afterPoll_result (c : Control) {o : Outcome} (h : ¬ o.Overwhelms) :
    ∃ report, (c.afterPoll o).result = .ok report := by
  unfold afterPoll
  split
  · next reason hreason => exact absurd ((o.overwhelms_iff _).2 ⟨reason, hreason⟩) h
  · have hresult := c.setConnected_result false
    exact ⟨.null, congrArg (Except.map fun _ => Json.null) hresult⟩
  · exact ⟨_, rfl⟩

theorem refresh_result (c : Control) {idle : Outcome} {script : List Outcome}
    (h : ¬ (script.headD idle).Overwhelms) :
    ∃ report, (c.refresh.run idle script).value.result = .ok report := by
  by_cases haddress : c.client.address = ""
  · rw [refresh, if_pos haddress]
    exact ⟨.null, rfl⟩
  · rw [refresh_eq haddress, Dialogue.run_ask_done]
    exact c.afterPoll_result h

theorem refresh_of_overwhelms (c : Control) {idle : Outcome} {script : List Outcome}
    (haddress : c.client.address ≠ "") (h : (script.headD idle).Overwhelms) :
    ∃ reason, (c.refresh.run idle script).value =
      ⟨c, [], .error (.link (.overwhelmed reason))⟩ := by
  obtain ⟨reason, hpoll⟩ := afterPoll_of_overwhelms h c
  rw [refresh_eq haddress, Dialogue.run_ask_done, hpoll]
  exact ⟨reason, rfl⟩

theorem refresh_failsUnchanged (idle : Outcome) (script : List Outcome) :
    (c.refresh.run idle script).value.FailsUnchanged c
      fun e => ∃ reason, e = .link (.overwhelmed reason) := by
  by_cases h : (script.headD idle).Overwhelms
  · by_cases haddress : c.client.address = ""
    · rw [refresh, if_pos haddress]
      exact failsUnchanged_ok rfl
    · obtain ⟨reason, hfails⟩ := c.refresh_of_overwhelms haddress h
      rw [hfails]
      exact failsUnchanged_error ⟨reason, rfl⟩
  · obtain ⟨report, hresult⟩ := c.refresh_result h
    exact failsUnchanged_ok hresult

theorem sendLimits_failsUnchanged (limits : Json) (idle : Outcome) (script : List Outcome) :
    ((c.sendLimits limits).run idle script).value.FailsUnchanged c
      fun e => e = .notConnected ∨ ∃ cause, e = .link cause := by
  unfold sendLimits
  split
  · have hrun := congrArg Dialogue.Run.value (Dialogue.run_bind idle (c.client.sendLimits limits)
      (fun reply => .done (⟨c, [], reply.mapError .link⟩ : Turn Unit)) script)
    intro e he
    have hresult := (congrArg Turn.result hrun).symm.trans he
    obtain ⟨cause, -, heq⟩ := mapError_eq_error_iff.1 hresult
    exact ⟨congrArg Turn.control hrun, .inr ⟨cause, heq.symm⟩⟩
  · exact failsUnchanged_error (.inl rfl)

theorem setInterval_failsUnchanged (interval : Float) :
    (c.setInterval interval).FailsUnchanged c fun e => e = .nonPositiveInterval := by
  unfold setInterval
  split
  · exact failsUnchanged_error rfl
  · exact failsUnchanged_ok rfl

theorem failsUnchanged_run (c : Control) (s : Step)
    (hcalled : ∀ ticks, s.operation ≠ .sendLoop ticks)
    (hupdate : ∀ servo formula, s.operation ≠ .updateFormula servo formula) :
    (s.run c).value.FailsUnchanged c fun e => s.operation.MayEndIn e := by
  obtain ⟨operation, script, idle⟩ := s
  cases operation with
  | updateFormula servo formula => exact absurd rfl (hupdate servo formula)
  | setFormulas formulas => exact (setFormulas_failsUnchanged formulas).map _
  | process frame =>
    cases frame with
    | none => exact nofun
    | some hand => exact (process_failsUnchanged hand).map _
  | collect => exact collect_failsUnchanged.map _
  | send => exact (send_failsUnchanged idle script).run_map _
  | refresh => exact (refresh_failsUnchanged idle script).run_map _
  | sendLimits limits => exact (sendLimits_failsUnchanged limits idle script).run_map _
  | setAddress address =>
    have hmove : (c.setAddress address).FailsUnchanged c fun _ => False :=
      failsUnchanged_ok (setConnected_result _ false)
    exact hmove.map _
  | setThreshold threshold => exact nofun
  | setInterval interval => exact (setInterval_failsUnchanged interval).map _
  | start => exact nofun
  | stop => exact nofun
  | sendLoop ticks => exact absurd rfl (hcalled ticks)

/-- Servo 2, which has a valid identifier, is registered before servo 0, which has none. -/
def registered : Control :=
  ({} : Control).after
    [{ operation := .updateFormula (.id 2) "100" }, { operation := .updateFormula (.id 0) "50" },
      { operation := .process (some []) }]

end RobotHand.Control
