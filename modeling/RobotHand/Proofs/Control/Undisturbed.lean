import RobotHand.Proofs.Control.Stopping
import RobotHand.Proofs.Control.Streaming

/-! The send loop while nothing else is done to the control, which does what its laps do. -/
namespace RobotHand.Control

open Dialogue

variable {idle : Outcome} {signal : Nat} {p : Progress} {run : List Lap} {script : List Outcome}
  {tick : Tick} {ticks : List Tick} {polled : Float} {report : Json} {sent : Bool}
  {t : Turn Json}

/-- What comes of laps: the waits that they ask for, or the failure that ends them. -/
def resultOf : List Lap → Except Fault (List Float)
  | [] => .ok []
  | lap :: laps =>
    match lap.ending with
    | .error e => .error e
    | .ok _ => (resultOf laps).map (lap.wait.toList ++ ·)

/-- A round during which nothing else is done to the control. -/
def Tick.undisturbed (tick : Tick) : Round := { start := tick.start, finish := tick.finish }

/-- The rounds of a loop up to a tick that finds it stopped, while nothing else is done to the
control. -/
def undisturbed (ticks : List Tick) : List Round :=
  (ticks.takeWhile fun tick => !tick.stopped).map Tick.undisturbed

def afterSending (polled : Float) (tick : Tick) (ticks : List Tick) (t : Turn Bool) :
    Dialogue (Turn (List Float)) :=
  t.andThen fun c _ => do
    let wait := c.interval - (tick.finish - tick.start)
    match checkPause wait with
    | .error e => return ⟨c, [], .error (.breakdown e)⟩
    | .ok _ => do
      let later ← sendRounds polled c ticks
      return later.map fun waits => if 0 < wait then wait :: waits else waits

def afterPolling (polled : Float) (tick : Tick) (ticks : List Tick) (t : Turn Json) :
    Dialogue (Turn (List Float)) :=
  t.andThen fun c _ => c.send >>= afterSending polled tick ticks

theorem sendRounds_cons (hgo : tick.stopped = false) (c : Control) (polled : Float)
    (ticks : List Tick) :
    c.sendRounds polled (tick :: ticks) =
      (if pollInterval ≤ tick.start - polled then c.refresh else .done ⟨c, [], .ok .null⟩) >>=
        afterPolling (if pollInterval ≤ tick.start - polled then tick.start else polled) tick
          ticks := by
  rw [sendRounds, if_neg (Bool.eq_false_iff.1 hgo)]
  dsimp only
  split <;> rfl

theorem sendRounds_of_stopped (hstop : tick.stopped) (c : Control) (polled : Float)
    (ticks : List Tick) : c.sendRounds polled (tick :: ticks) = .done ⟨c, [], .ok []⟩ := by
  rw [sendRounds, if_pos hstop]

theorem run_afterPolling {u : Turn Bool} {calls : List Call} {rest : List Outcome}
    (hpoll : t.result = .ok report) (hsend : t.control.send.run idle script = ⟨u, calls, rest⟩)
    (hsent : u.result = .ok sent) :
    let wait := u.control.interval - (tick.finish - tick.start)
    let later := (u.control.sendRounds polled ticks).run idle rest
    (afterPolling polled tick ticks t).run idle script =
      match checkPause wait with
      | .error e => ⟨⟨u.control, t.events ++ u.events, .error (.breakdown e)⟩, calls, rest⟩
      | .ok _ =>
        { later with
          value :=
            { later.value.map (fun waits => if 0 < wait then wait :: waits else waits) with
              events := t.events ++ (u.events ++ later.value.events) }
          calls := calls ++ later.calls } := by
  intro wait later
  have hround : (t.control.send >>= afterSending polled tick ticks).run idle script = _ :=
    run_bind idle t.control.send (afterSending polled tick ticks) script
  rw [afterPolling, Turn.run_andThen hpoll]
  dsimp only
  rw [hround, hsend]
  dsimp only
  rw [afterSending, Turn.run_andThen hsent]
  dsimp only
  cases checkPause wait with
  | error e => simp only [Dialogue.run, pure, List.append_nil]
  | ok _ =>
    dsimp only
    rw [run_map]
    rfl

theorem polling_undisturbed (p : Progress) (idle : Outcome) (tick : Tick) :
    ∃ (t : Turn Json) (calls : List Call) (rest : List Outcome),
      (if pollInterval ≤ tick.start - p.polled then p.control.refresh
        else .done ⟨p.control, [], .ok .null⟩).run idle p.script = ⟨t, calls, rest⟩ ∧
      p.polling idle tick.undisturbed = ⟨t.map .status, calls, rest⟩ := by
  refine ⟨_, _, _, rfl, ?_⟩
  rw [Progress.polling, Progress.poll, Tick.undisturbed]
  by_cases hdue : pollInterval ≤ tick.start - p.polled
  · rw [if_pos hdue, if_pos hdue]
    exact Step.run_refresh p.control p.script idle
  · rw [if_neg hdue, if_neg hdue]
    rfl

theorem result_of_map {α β : Type} {u : Turn α} {f : α → β}
    (h : ∃ b, (u.map f).result = .ok b) : ∃ a, u.result = .ok a := by
  obtain ⟨b, hb⟩ := h
  cases hresult : u.result with
  | ok a => exact ⟨a, rfl⟩
  | error e =>
    rw [Turn.map, hresult] at hb
    cases hb

theorem sending_undisturbed {calls : List Call} {rest : List Outcome}
    (hpolling : p.polling idle tick.undisturbed = ⟨t.map .status, calls, rest⟩)
    (h : ∃ a, (p.sending idle tick.undisturbed).value.result = .ok a) :
    ∃ (u : Turn Bool) (calls : List Call) (rest' : List Outcome),
      t.control.send.run idle rest = ⟨u, calls, rest'⟩ ∧
      p.sending idle tick.undisturbed = ⟨u.map .flag, calls, rest'⟩ ∧
      ∃ sent, u.result = .ok sent := by
  have hrun : p.sending idle tick.undisturbed =
      { t.control.send.run idle rest with
        value := (t.control.send.run idle rest).value.map .flag } := by
    rw [Progress.sending, Progress.send, hpolling]
    exact Step.run_send t.control rest idle
  rw [hrun] at h
  exact ⟨_, _, _, rfl, hrun, result_of_map h⟩

theorem loops_undisturbed (p : Progress) (idle : Outcome) (tick : Tick) :
    (p.next idle tick.undisturbed).control.loops = p.control.loops := by
  have hpolling : (p.polling idle tick.undisturbed).value.control.loops = p.control.loops := by
    rw [Progress.polling]
    split
    · rfl
    · next s h =>
      obtain rfl := Progress.eq_of_poll h
      exact loops_run _ _
  exact (loops_run _ _).trans hpolling

theorem waiting_undisturbed (p : Progress) (idle : Outcome) (tick : Tick)
    (hset : p.control.loops.isSet signal = false) :
    let wait := (p.next idle tick.undisturbed).control.interval - (tick.finish - tick.start)
    p.waiting idle signal tick.undisturbed = (checkPause wait).mapError .breakdown := by
  intro wait
  have hunset : (p.next idle tick.undisturbed).control.loops.isSet signal = false :=
    (loops_undisturbed p idle tick).symm ▸ hset
  have hwait : p.wait idle tick.undisturbed = if 0 < wait then some wait else none := rfl
  rw [Progress.waiting, hwait, hunset]
  by_cases hpositive : 0 < wait
  · rw [if_pos hpositive]
    rfl
  · have hnone : checkPause wait = .ok () := if_neg fun h => hpositive h.1
    rw [if_neg hpositive, hnone]
    rfl

/-- An undisturbed lap of which neither the poll nor the sending fails does what a round of the loop
does. -/
theorem run_sendRounds_cons (hgo : tick.stopped = false) (p : Progress) (idle : Outcome)
    (ticks : List Tick) (hset : p.control.loops.isSet signal = false)
    (hpolls : ∃ a, (p.polling idle tick.undisturbed).value.result = .ok a)
    (hsends : ∃ a, (p.sending idle tick.undisturbed).value.result = .ok a) :
    let polling := p.polling idle tick.undisturbed
    let sending := p.sending idle tick.undisturbed
    let next := p.next idle tick.undisturbed
    let later := (next.control.sendRounds next.polled ticks).run idle next.script
    (p.control.sendRounds p.polled (tick :: ticks)).run idle p.script =
      match p.waiting idle signal tick.undisturbed with
      | .error e => ⟨⟨next.control, polling.value.events ++ sending.value.events, .error e⟩,
          polling.calls ++ sending.calls, next.script⟩
      | .ok _ =>
        { later with
          value :=
            { later.value.map ((p.wait idle tick.undisturbed).toList ++ ·) with
              events := polling.value.events ++ (sending.value.events ++ later.value.events) }
          calls := polling.calls ++ (sending.calls ++ later.calls) } := by
  obtain ⟨t, calls, rest, hpoll, hpolling⟩ := polling_undisturbed p idle tick
  rw [hpolling] at hpolls
  obtain ⟨report, hreport⟩ := result_of_map hpolls
  obtain ⟨u, calls', rest', hsend, hsending, sent, hsent⟩ := sending_undisturbed hpolling hsends
  have hnext : p.next idle tick.undisturbed =
      { polled := if pollInterval ≤ tick.start - p.polled then tick.start else p.polled
        control := u.control
        script := rest' } := by
    rw [Progress.next, hsending]
    rfl
  rw [waiting_undisturbed p idle tick hset, sendRounds_cons hgo, Progress.wait, hnext, hpolling,
    hsending]
  refine (run_bind idle _ _ p.script).trans ?_
  rw [hpoll]
  dsimp only [Tick.undisturbed]
  rw [run_afterPolling hreport hsend hsent]
  cases checkPause (u.control.interval - (tick.finish - tick.start)) with
  | error e => rfl
  | ok _ =>
    have hwaits : ∀ wait : Float,
        (fun waits : List Float => if 0 < wait then wait :: waits else waits) =
          ((if 0 < wait then some wait else none).toList ++ ·) := by
      intro wait
      split <;> rfl
    dsimp only
    rw [hwaits]
    rfl

/-- A poll that fails ends the loop. -/
theorem run_sendRounds_of_error (hgo : tick.stopped = false) (p : Progress) (idle : Outcome)
    (ticks : List Tick) {c : Control} {e : Fault}
    (hpolls : (p.polling idle tick.undisturbed).value = ⟨c, [], .error e⟩) :
    let playing := (p.control.sendRounds p.polled (tick :: ticks)).run idle p.script
    playing.value = ⟨c, [], .error e⟩ ∧
      playing.calls = (p.polling idle tick.undisturbed).calls := by
  obtain ⟨t, calls, rest, hpoll, hpolling⟩ := polling_undisturbed p idle tick
  have hturn : t.map Answer.status = ⟨c, [], .error e⟩ := by
    rw [← hpolls, hpolling]
  obtain ⟨control, events, result⟩ := t
  cases result with
  | ok report => cases congrArg Turn.result hturn
  | error e' =>
    cases congrArg Turn.control hturn
    cases congrArg Turn.events hturn
    cases congrArg Turn.result hturn
    intro playing
    have hplaying : playing = _ := (congrArg (fun d => d.run idle p.script)
      (sendRounds_cons hgo p.control p.polled ticks)).trans (run_bind idle _ _ p.script)
    rw [hplaying, hpoll, hpolling]
    exact ⟨rfl, List.append_nil _⟩

section Records

variable {α : Type} (record : Run (Turn Answer) → List α)
  (hnone : ∀ c a script, record ⟨⟨c, [], .ok a⟩, [], script⟩ = []) (p : Progress) (idle : Outcome)

include hnone

theorem recorded_polling (tick : Tick) :
    let round := tick.undisturbed
    recorded (fun s now => record (s.run now)) p.control (p.poll idle round).toList =
      record (p.polling idle round) := by
  intro round
  rw [Progress.polling]
  cases hdue : p.poll idle round with
  | none => exact (hnone ..).symm
  | some s => exact List.append_nil _

/-- What is recorded of an undisturbed lap is recorded of its poll, if it has one, and of its
sending. -/
theorem recorded_undisturbed (signal : Nat) (tick : Tick) (later : List Step) :
    let round := tick.undisturbed
    recorded (fun s now => record (s.run now)) p.control
        ((p.fullLap idle signal round).steps ++ later) =
      record (p.polling idle round) ++ (record (p.sending idle round) ++
        recorded (fun s now => record (s.run now)) (p.next idle round).control later) := by
  intro round
  have hsteps : (p.fullLap idle signal round).steps ++ later =
      (p.poll idle round).toList ++ (p.send idle round :: later) := by
    simp [Progress.fullLap, Lap.steps, round, Tick.undisturbed]
  have hcontrol : (p.polling idle round).value.control =
      p.control.after (p.poll idle round).toList := Progress.control_polling p idle round
  have hsending : p.sending idle round =
      (p.send idle round).run (p.polling idle round).value.control := rfl
  have hnext : (p.next idle round).control = (p.sending idle round).value.control := rfl
  rw [hsteps, recorded_append, recorded_polling record hnone p idle tick, recorded, ← hcontrol,
    hnext, hsending]

end Records

theorem steps_brokenLap (p : Progress) (idle : Outcome) (tick : Tick) (reason : String) :
    (p.brokenLap idle tick.undisturbed reason).steps = (p.poll idle tick.undisturbed).toList := by
  simp [Progress.brokenLap, Lap.steps, Tick.undisturbed]

/-- A loop makes its rounds as the laps of a run say. -/
def Plays (idle : Outcome) (p : Progress) (ticks : List Tick) (run : List Lap) : Prop :=
  let playing := (p.control.sendRounds p.polled ticks).run idle p.script
  let steps := run.flatMap Lap.steps
  playing.value = ⟨p.control.after steps, p.control.eventsOf steps, resultOf run⟩ ∧
    playing.calls = recorded (fun s now => (s.run now).calls) p.control steps

namespace Plays

theorem lap (hgo : tick.stopped = false) (hset : p.control.loops.isSet signal = false)
    (hpolling : ∃ a, (p.polling idle tick.undisturbed).value.result = .ok a)
    (hsending : ∃ a, (p.sending idle tick.undisturbed).value.result = .ok a)
    (hwaiting : p.waiting idle signal tick.undisturbed = .ok ())
    (h : Plays idle (p.next idle tick.undisturbed) ticks run) :
    Plays idle p (tick :: ticks) (p.fullLap idle signal tick.undisturbed :: run) := by
  obtain ⟨hvalue, hcalls⟩ := h
  have hevents : ∀ later, p.control.eventsOf (_ ++ later) = _ :=
    recorded_undisturbed (fun r => r.value.events) (fun _ _ _ => rfl) p idle signal tick
  have hcalled : ∀ later, recorded _ p.control (_ ++ later) = _ :=
    recorded_undisturbed (fun r => r.calls) (fun _ _ _ => rfl) p idle signal tick
  have hresult : resultOf (p.fullLap idle signal tick.undisturbed :: run) =
      (resultOf run).map ((p.wait idle tick.undisturbed).toList ++ ·) := by
    rw [resultOf, Progress.fullLap, hwaiting]
  rw [Plays, run_sendRounds_cons hgo p idle ticks hset hpolling hsending, hwaiting,
    List.flatMap_cons, hresult]
  dsimp only
  rw [hvalue, hcalls, hcalled, hevents, after_append,
    ← Progress.control_next p idle signal tick.undisturbed]
  exact ⟨rfl, rfl⟩

theorem expired {e : Fault} (hgo : tick.stopped = false)
    (hset : p.control.loops.isSet signal = false)
    (hpolling : ∃ a, (p.polling idle tick.undisturbed).value.result = .ok a)
    (hsending : ∃ a, (p.sending idle tick.undisturbed).value.result = .ok a)
    (hwaiting : p.waiting idle signal tick.undisturbed = .error e) :
    Plays idle p (tick :: ticks) [p.fullLap idle signal tick.undisturbed] := by
  have hevents : p.control.eventsOf (_ ++ []) = _ :=
    recorded_undisturbed (fun r => r.value.events) (fun _ _ _ => rfl) p idle signal tick []
  have hcalled : recorded _ p.control (_ ++ []) = _ :=
    recorded_undisturbed (fun r => r.calls) (fun _ _ _ => rfl) p idle signal tick []
  have hresult : resultOf [p.fullLap idle signal tick.undisturbed] = .error e := by
    rw [resultOf, Progress.fullLap, hwaiting]
  rw [List.append_nil] at hevents hcalled
  rw [Plays, run_sendRounds_cons hgo p idle ticks hset hpolling hsending, hwaiting,
    List.flatMap_singleton, hresult]
  dsimp only
  rw [hevents, hcalled, ← Progress.control_next p idle signal tick.undisturbed, recorded,
    List.append_nil, recorded, List.append_nil]
  exact ⟨rfl, rfl⟩

theorem broken {reason : String} (hgo : tick.stopped = false)
    (hpolling : (p.polling idle tick.undisturbed).value =
      ⟨p.control, [], .error (.link (.overwhelmed reason))⟩) :
    Plays idle p (tick :: ticks) [p.brokenLap idle tick.undisturbed reason] := by
  obtain ⟨hvalue, hcalls⟩ := run_sendRounds_of_error hgo p idle ticks hpolling
  have hevents : p.control.eventsOf (p.poll idle tick.undisturbed).toList = _ :=
    recorded_polling (fun r => r.value.events) (fun _ _ _ => rfl) p idle tick
  have hcalled := recorded_polling (fun r => r.calls) (fun _ _ _ => rfl) p idle tick
  have hcontrol := Progress.control_polling p idle tick.undisturbed
  rw [hpolling] at hcontrol
  rw [Plays, List.flatMap_singleton, steps_brokenLap, hevents, hcalled, hvalue, hcalls, hpolling]
  exact ⟨congrArg (fun c => (⟨c, [], _⟩ : Turn (List Float))) hcontrol, rfl⟩

end Plays

/-- The loop does what its laps do while nothing else is done to the control. -/
theorem Goes.plays (h : Goes idle signal p (undisturbed ticks) run)
    (hset : p.control.loops.isSet signal = false) : Plays idle p ticks run := by
  induction ticks generalizing p run with
  | nil =>
    cases h
    exact ⟨rfl, rfl⟩
  | cons tick ticks ih =>
    cases hgo : tick.stopped with
    | true =>
      rw [undisturbed, List.takeWhile_cons_of_neg (by simp [hgo])] at h
      cases h
      rw [Plays, sendRounds_of_stopped hgo]
      exact ⟨rfl, rfl⟩
    | false =>
      rw [undisturbed, List.takeWhile_cons_of_pos (by simp [hgo])] at h
      cases h with
      | stopped hstop => cases hset.symm.trans hstop
      | lap hunset hread hpolling hsending hwaiting h =>
        exact .lap hgo hset hpolling hsending hwaiting (ih h ((loops_undisturbed ..).symm ▸ hset))
      | expired hunset hread hpolling hsending hwaiting =>
        exact .expired hgo hset hpolling hsending hwaiting
      | broken hunset hbreaks hpolling => exact .broken hgo hpolling

end RobotHand.Control
