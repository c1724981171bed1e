import RobotHand.Proofs.Control.Failing

/-! The send loop lap by lap, among whatever else is done to the control meanwhile. A lap to valid
servos fails only if the reader of a status breaks down, or the wait in its end is too long. -/
namespace RobotHand.Control

open Dialogue

/-- A round of a loop: when it starts and finishes, in seconds, and what else is done to the control
meanwhile. -/
structure Round where
  start : Float
  finish : Float
  /-- Before the loop looks at its signal. -/
  before : List Step := []
  /-- Between the look and the poll. -/
  opening : List Step := []
  /-- Between the poll and the sending. -/
  amid : List Step := []
  /-- Between the sending and the wait. -/
  closing : List Step := []

structure Lap where
  round : Round
  poll : Option Step
  send : Option Step
  /-- The seconds that it asks to wait for in the end, if any. -/
  wait : Option Float
  /-- A failure ends the loop. -/
  ending : Except Fault Unit

namespace Lap

def own (lap : Lap) : List Step := lap.poll.toList ++ lap.send.toList

def steps (lap : Lap) : List Step :=
  lap.round.before ++ lap.round.opening ++ lap.poll.toList ++ lap.round.amid ++ lap.send.toList ++
    lap.round.closing

/-- Its poll is answered with a status that the reader breaks down on. -/
def Overwhelmed (lap : Lap) (c : Control) : Prop :=
  ∃ poll, lap.poll = some poll ∧
    (c.after (lap.round.before ++ lap.round.opening)).client.address ≠ "" ∧
    (poll.outcomes.headD poll.idle).Overwhelms

end Lap

/-- What a loop carries from lap to lap: when the last lap with a poll started, the control, and the
outcomes of the requests that it still has to make. -/
structure Progress where
  polled : Float := 0
  control : Control
  script : List Outcome

namespace Progress

variable (p : Progress) (idle : Outcome) (signal : Nat) (round : Round)

def poll : Option Step :=
  if pollInterval ≤ round.start - p.polled then some ⟨.refresh, p.script, idle⟩ else none

/-- A lap up to its poll, which leaves all as it is if none is due. -/
def polling : Run (Turn Answer) :=
  let c := p.control.after (round.before ++ round.opening)
  match p.poll idle round with
  | none => ⟨⟨c, [], .ok (.status .null)⟩, [], p.script⟩
  | some s => s.run c

def send : Step := ⟨.send, (p.polling idle round).rest, idle⟩

/-- A lap up to its sending. -/
def sending : Run (Turn Answer) :=
  (p.send idle round).run ((p.polling idle round).value.control.after round.amid)

def next : Progress where
  polled := if pollInterval ≤ round.start - p.polled then round.start else p.polled
  control := (p.sending idle round).value.control.after round.closing
  script := (p.sending idle round).rest

def wait : Option Float :=
  let wait := (p.next idle round).control.interval - (round.finish - round.start)
  if 0 < wait then some wait else none

/-- How the wait after a lap goes. A loop whose signal is set goes on without waiting. -/
def waiting : Except Fault Unit :=
  match p.wait idle round with
  | none => .ok ()
  | some seconds =>
    if (p.next idle round).control.loops.isSet signal then .ok ()
    else (checkPause seconds).mapError .breakdown

/-- A lap of which neither the poll nor the sending fails. -/
def fullLap : Lap :=
  ⟨round, p.poll idle round, some (p.send idle round), p.wait idle round,
    p.waiting idle signal round⟩

/-- A lap, which ends at once if its poll or its sending fails. -/
def lap : Lap :=
  match (p.polling idle round).value.result with
  | .error e => ⟨round, p.poll idle round, none, none, .error e⟩
  | .ok _ =>
    match (p.sending idle round).value.result with
    | .error e => ⟨round, p.poll idle round, some (p.send idle round), none, .error e⟩
    | .ok _ => p.fullLap idle signal round

end Progress

/-- The laps of a loop with a signal, up to a failure. -/
def laps (idle : Outcome) (signal : Nat) (p : Progress) : List Round → List Lap
  | [] => []
  | round :: rounds =>
    if (p.control.after round.before).loops.isSet signal then []
    else
      match (p.lap idle signal round).ending with
      | .error _ => [p.lap idle signal round]
      | .ok _ => p.lap idle signal round :: laps idle signal (p.next idle round) rounds

/-- No servo without a valid identifier has a position, all along. -/
def ServosValid (c : Control) (steps : List Step) : Prop :=
  ∀ before, before <+: steps → ∀ id ∈ (c.after before).calculated.keys, 1 ≤ id

variable {c : Control} {steps later : List Step} {idle : Outcome} {signal : Nat} {p : Progress}
  {round : Round} {rounds : List Round} {script : List Outcome}

theorem ServosValid.left (h : ServosValid c (steps ++ later)) : ServosValid c steps :=
  fun before hbefore => h before (hbefore.trans (List.prefix_append _ _))

theorem ServosValid.right (h : ServosValid c (steps ++ later)) :
    ServosValid (c.after steps) later := by
  intro before hbefore
  rw [← after_append]
  exact h _ ((List.prefix_append_right_inj _).2 hbefore)

/-- A sending to valid servos does not fail, whatever the robot answers. -/
theorem send_result (hvalid : ∀ id ∈ c.calculated.keys, 1 ≤ id) (idle : Outcome)
    (script : List Outcome) :
    ∃ a, (Step.run ⟨.send, script, idle⟩ c).value.result = .ok a := by
  obtain ⟨calls, t, rest, hrun, h⟩ := c.send_run idle script
  rw [Step.run_send, hrun]
  cases h with
  | invalid hready h =>
    obtain ⟨⟨id, position⟩, hmem, hid⟩ := h
    have hkey : id ∈ c.calculated.keys := Table.mem_keys_iff.2 ⟨position, (mem_due.1 hmem).1⟩
    exact absurd (hvalid id hkey) (Int.not_le.2 hid)
  | _ => exact ⟨_, rfl⟩

namespace Progress

theorem control_polling (p : Progress) (idle : Outcome) (round : Round) :
    (p.polling idle round).value.control =
      p.control.after (round.before ++ round.opening ++ (p.poll idle round).toList) := by
  rw [after_append, polling]
  split <;> rename_i heq <;> rw [heq] <;> rfl

theorem eq_of_poll {s : Step} (h : p.poll idle round = some s) :
    s = ⟨.refresh, p.script, idle⟩ := by
  rw [poll] at h
  split at h
  · exact (Option.some.inj h).symm
  · cases h

/-- A poll fails only if the reader of the status breaks down. -/
theorem polling_cases (p : Progress) (idle : Outcome) (signal : Nat) (round : Round) :
    let c := p.control.after (round.before ++ round.opening)
    ((p.fullLap idle signal round).Overwhelmed p.control ∧ ∃ reason,
      (p.polling idle round).value = ⟨c, [], .error (.link (.overwhelmed reason))⟩) ∨
    (¬ (p.fullLap idle signal round).Overwhelmed p.control ∧
      ∃ a, (p.polling idle round).value.result = .ok a) := by
  intro c
  rw [polling]
  cases hpoll : p.poll idle round with
  | none =>
    refine .inr ⟨?_, _, rfl⟩
    rintro ⟨poll, hsome, -⟩
    cases hpoll.symm.trans hsome
  | some s =>
    obtain rfl := eq_of_poll hpoll
    dsimp only
    rw [Step.run_refresh]
    by_cases haddress : c.client.address = ""
    · refine .inr ⟨?_, .status .null, ?_⟩
      · rintro ⟨-, -, hknown, -⟩
        exact hknown haddress
      · rw [refresh, if_pos haddress]
        rfl
    by_cases hread : (p.script.headD idle).Overwhelms
    · obtain ⟨reason, hfails⟩ := c.refresh_of_overwhelms haddress hread
      exact .inl ⟨⟨_, hpoll, haddress, hread⟩, reason, congrArg (Turn.map Answer.status) hfails⟩
    · obtain ⟨report, hresult⟩ := c.refresh_result hread
      refine .inr ⟨?_, .status report, congrArg (Except.map Answer.status) hresult⟩
      rintro ⟨poll, hsome, -, hbreaks⟩
      cases hpoll.symm.trans hsome
      exact hread hbreaks

theorem control_next (p : Progress) (idle : Outcome) (signal : Nat) (round : Round) :
    (p.next idle round).control = p.control.after (p.fullLap idle signal round).steps := by
  rw [fullLap, Lap.steps, after_append, Option.toList, after_snoc, after_append, ← control_polling]
  rfl

/-- A lap that the reader of the status breaks down in. -/
def brokenLap (p : Progress) (idle : Outcome) (round : Round) (reason : String) : Lap :=
  ⟨round, p.poll idle round, none, none, .error (.link (.overwhelmed reason))⟩

/-- A lap to valid servos ends with its poll if the reader breaks down, and with its wait if not. -/
theorem lap_cases (hvalid : ServosValid p.control (p.lap idle signal round).steps) :
    ((p.fullLap idle signal round).Overwhelmed p.control ∧ ∃ reason,
      (p.polling idle round).value =
        ⟨p.control.after (round.before ++ round.opening), [],
          .error (.link (.overwhelmed reason))⟩ ∧
      p.lap idle signal round = p.brokenLap idle round reason) ∨
    (¬ (p.fullLap idle signal round).Overwhelmed p.control ∧
      (∃ a, (p.polling idle round).value.result = .ok a) ∧
      (∃ a, (p.sending idle round).value.result = .ok a) ∧
      p.lap idle signal round = p.fullLap idle signal round) := by
  rcases p.polling_cases idle signal round with ⟨hbreaks, reason, hpolling⟩ | ⟨hread, a, hpolling⟩
  · refine .inl ⟨hbreaks, reason, hpolling, ?_⟩
    rw [lap, hpolling]
    rfl
  · have hsteps : ∃ rest, (p.lap idle signal round).steps =
        round.before ++ round.opening ++ (p.poll idle round).toList ++ round.amid ++ rest := by
      rw [lap, hpolling]
      dsimp only
      split <;> exact ⟨_, List.append_assoc ..⟩
    obtain ⟨rest, hrest⟩ := hsteps
    rw [hrest] at hvalid
    have hready := hvalid.left _ (List.prefix_refl _)
    rw [after_append, ← control_polling] at hready
    obtain ⟨b, hsending⟩ := send_result hready idle (p.polling idle round).rest
    refine .inr ⟨hread, ⟨a, hpolling⟩, ⟨b, hsending⟩, ?_⟩
    rw [lap, hpolling, sending, send, hsending]

end Progress

/-- The laps of a loop to valid servos: only the last one may fail. -/
inductive Goes (idle : Outcome) (signal : Nat) : Progress → List Round → List Lap → Prop
  | finished {p : Progress} : Goes idle signal p [] []
  | stopped {p : Progress} {round rounds} (h : (p.control.after round.before).loops.isSet signal) :
      Goes idle signal p (round :: rounds) []
  | lap {p : Progress} {round rounds laps}
      (hset : (p.control.after round.before).loops.isSet signal = false)
      (hread : ¬ (p.fullLap idle signal round).Overwhelmed p.control)
      (hpolling : ∃ a, (p.polling idle round).value.result = .ok a)
      (hsending : ∃ a, (p.sending idle round).value.result = .ok a)
      (hwaiting : p.waiting idle signal round = .ok ())
      (h : Goes idle signal (p.next idle round) rounds laps) :
      Goes idle signal p (round :: rounds) (p.fullLap idle signal round :: laps)
  | expired {p : Progress} {round rounds e}
      (hset : (p.control.after round.before).loops.isSet signal = false)
      (hread : ¬ (p.fullLap idle signal round).Overwhelmed p.control)
      (hpolling : ∃ a, (p.polling idle round).value.result = .ok a)
      (hsending : ∃ a, (p.sending idle round).value.result = .ok a)
      (hwaiting : p.waiting idle signal round = .error e) :
      Goes idle signal p (round :: rounds) [p.fullLap idle signal round]
  | broken {p : Progress} {round rounds reason}
      (hset : (p.control.after round.before).loops.isSet signal = false)
      (hbreaks : (p.fullLap idle signal round).Overwhelmed p.control)
      (hpolling : (p.polling idle round).value =
        ⟨p.control.after (round.before ++ round.opening), [],
          .error (.link (.overwhelmed reason))⟩) :
      Goes idle signal p (round :: rounds) [p.brokenLap idle round reason]

theorem goes_laps
    (hvalid : ServosValid p.control ((laps idle signal p rounds).flatMap Lap.steps)) :
    Goes idle signal p rounds (laps idle signal p rounds) := by
  induction rounds generalizing p with
  | nil => exact .finished
  | cons round rounds ih =>
    rw [laps] at hvalid ⊢
    split
    · next h => exact .stopped h
    · next h =>
      have hset := Bool.not_eq_true _ ▸ h
      rw [if_neg h] at hvalid
      have hlap : ServosValid p.control (p.lap idle signal round).steps := by
        split at hvalid
        · rwa [List.flatMap_singleton] at hvalid
        · exact hvalid.left
      rcases Progress.lap_cases hlap with
        ⟨hbreaks, reason, hpolling, heq⟩ | ⟨hread, hpolling, hsending, heq⟩
      · rw [heq]
        exact .broken hset hbreaks hpolling
      · have hending : (p.lap idle signal round).ending = p.waiting idle signal round :=
          congrArg Lap.ending heq
        rw [hending, heq] at hvalid ⊢
        cases hwaiting : p.waiting idle signal round with
        | error e => exact .expired hset hread hpolling hsending hwaiting
        | ok _ =>
          rw [hwaiting] at hvalid
          refine .lap hset hread hpolling hsending hwaiting (ih ?_)
          rw [Progress.control_next p idle signal round]
          exact hvalid.right

end RobotHand.Control
