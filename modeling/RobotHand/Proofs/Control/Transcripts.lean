import RobotHand.Control.Operation

/-! The requests of a program with their outcomes, and what a program makes of them. -/
namespace RobotHand

def requests (calls : List Call) : List Request :=
  calls.filterMap fun
    | .request r => some r
    | _ => none

namespace Dialogue

variable {α β : Type}

/-- The request of a program that makes one takes the first outcome. -/
theorem run_ask_done (r : Request) (f : Outcome → α) (idle : Outcome) (script : List Outcome) :
    (ask r fun o => done (f o)).run idle script =
      ⟨f (script.headD idle), [.request r], script.tail⟩ := by
  cases script <;> rfl

/-- What a program asks for, each request with its outcome. -/
def transcript (idle : Outcome) : Dialogue α → List Outcome → List (Request × Outcome)
  | done _, _ => []
  | ask r next, [] => (r, idle) :: (next idle).transcript idle []
  | ask r next, o :: script => (r, o) :: (next o).transcript idle script
  | close next, script => next.transcript idle script
  | wait _ next, script => next.transcript idle script

theorem map_fst_transcript (d : Dialogue α) (idle : Outcome) (script : List Outcome) :
    (d.transcript idle script).map Prod.fst = requests (d.run idle script).calls := by
  induction d generalizing script with
  | done a => rfl
  | ask r next ih =>
    cases script with
    | nil => exact congrArg (r :: ·) (ih idle [])
    | cons o script => exact congrArg (r :: ·) (ih o script)
  | close next ih => exact ih script
  | wait seconds next ih => exact ih script

theorem transcript_bind (d : Dialogue α) (f : α → Dialogue β) (idle : Outcome)
    (script : List Outcome) :
    (d >>= f).transcript idle script = d.transcript idle script ++
      (f (d.run idle script).value).transcript idle (d.run idle script).rest := by
  induction d generalizing script with
  | done a => rfl
  | ask r next ih =>
    cases script with
    | nil => exact congrArg ((r, idle) :: ·) (ih idle [])
    | cons o script => exact congrArg ((r, o) :: ·) (ih o script)
  | close next ih => exact ih script
  | wait seconds next ih => exact ih script

/-- The outcomes that a run leaves are some of those that it was given. -/
theorem rest_subset (d : Dialogue α) (idle : Outcome) (script : List Outcome) :
    (d.run idle script).rest ⊆ script := by
  induction d generalizing script with
  | done a => exact List.Subset.refl _
  | ask r next ih =>
    cases script with
    | nil => exact ih idle []
    | cons o script => exact List.subset_cons_of_subset o (ih o script)
  | close next ih => exact ih script
  | wait seconds next ih => exact ih script

theorem outcome_of_mem_transcript {d : Dialogue α} {idle : Outcome} {script : List Outcome}
    {e : Request × Outcome} (h : e ∈ d.transcript idle script) : e.2 = idle ∨ e.2 ∈ script := by
  induction d generalizing script with
  | done a => cases h
  | ask r next ih =>
    cases script with
    | nil =>
      rcases List.mem_cons.1 h with rfl | hlater
      · exact .inl rfl
      · exact ih idle hlater
    | cons o script =>
      rcases List.mem_cons.1 h with rfl | hlater
      · exact .inr List.mem_cons_self
      · exact (ih o hlater).imp id (List.mem_cons_of_mem o)
  | close next ih => exact ih h
  | wait seconds next ih => exact ih h

theorem transcript_ask_done (r : Request) (f : Outcome → α) (idle : Outcome)
    (script : List Outcome) :
    (ask r fun o => done (f o)).transcript idle script = [(r, script.headD idle)] := by
  cases script <;> rfl

end Dialogue

namespace Control

variable {α β : Type} {R : List (Request × Outcome) → List Event → Control → Prop}
  {P : List (Request × Outcome) → Control → Prop} {log : List (Request × Outcome)}
  {events : List Event}

/-- Whatever the outcomes are, the requests of a program with their outcomes, after earlier ones,
its events, after earlier ones, and the control that it leaves are related as stated. -/
def Evolves (R : List (Request × Outcome) → List Event → Control → Prop)
    (log : List (Request × Outcome)) (events : List Event) (d : Dialogue (Turn α)) : Prop :=
  ∀ idle script, R (log ++ d.transcript idle script)
    (events ++ (d.run idle script).value.events) (d.run idle script).value.control

theorem Evolves.done {t : Turn α} (h : R log (events ++ t.events) t.control) :
    Evolves R log events (.done t) := by
  intro idle script
  change R (log ++ []) (events ++ t.events) t.control
  rw [List.append_nil]
  exact h

theorem Evolves.quiet {t : Turn α} (h : R log events t.control) (hevents : t.events = []) :
    Evolves R log events (.done t) := by
  refine .done ?_
  rw [hevents, List.append_nil]
  exact h

theorem Evolves.bind {d : Dialogue (Turn α)} {f : Turn α → Dialogue (Turn β)}
    (h : Evolves R log events d)
    (hf : ∀ log t, R log (events ++ t.events) t.control → Evolves R log events (f t)) :
    Evolves R log events (d >>= f) := by
  intro idle script
  have hrun : (d >>= f).run idle script = _ := Dialogue.run_bind idle d f script
  rw [Dialogue.transcript_bind, hrun, ← List.append_assoc]
  exact hf _ _ (h idle script) idle (d.run idle script).rest

theorem Evolves.andThen {t : Turn α} {f : Control → α → Dialogue (Turn β)}
    (h : R log (events ++ t.events) t.control)
    (hf : ∀ a, Evolves R log (events ++ t.events) (f t.control a)) :
    Evolves R log events (t.andThen f) := by
  unfold Turn.andThen
  split
  · exact .done h
  · next a _ =>
    intro idle script
    let prepend (later : Turn β) : Turn β := { later with events := t.events ++ later.events }
    have hrun : (f t.control a >>= fun later => pure (prepend later)).run idle script = _ :=
      Dialogue.run_bind idle (f t.control a) (fun later => .done (prepend later)) script
    have htranscript : (f t.control a >>= fun later => pure (prepend later)).transcript idle script
        = (f t.control a).transcript idle script :=
      (Dialogue.transcript_bind _ _ idle script).trans (List.append_nil _)
    have hlater := hf a idle script
    rw [List.append_assoc] at hlater
    rw [hrun, htranscript]
    exact hlater

/-- What polls and sendings keep, the send loop keeps. -/
theorem Evolves.sendRounds
    (hpoll : ∀ log events c, R log events c → Evolves R log events c.refresh)
    (hsend : ∀ log events c, R log events c → Evolves R log events c.send) (ticks : List Tick)
    (polled : Float) {c : Control} (h : R log events c) :
    Evolves R log events (c.sendRounds polled ticks) := by
  induction ticks generalizing c log events polled with
  | nil => exact .quiet h rfl
  | cons tick ticks ih =>
    rw [Control.sendRounds]
    split
    · exact .quiet h rfl
    · extract_lets overdue rest
      have hrest : ∀ log (poll : Turn Json), R log (events ++ poll.events) poll.control →
          Evolves R log events (rest poll) := by
        intro log poll hpoll
        refine .andThen hpoll fun _ => ?_
        refine (hsend log _ _ hpoll).bind fun log sent hsent => .andThen hsent fun _ => ?_
        dsimp only
        split
        · exact .quiet hsent rfl
        · exact (ih _ hsent).bind fun _ _ hlater => .done hlater
      split
      · exact (hpoll log events c h).bind hrest
      · refine hrest log ⟨c, [], .ok .null⟩ ?_
        rw [List.append_nil]
        exact h

/-- Whatever the outcomes are, the requests of a program with their outcomes, after earlier ones,
and the control that it leaves are related as stated. -/
def Traces (P : List (Request × Outcome) → Control → Prop) (log : List (Request × Outcome))
    (d : Dialogue (Turn α)) : Prop :=
  ∀ idle script, P (log ++ d.transcript idle script) (d.run idle script).value.control

theorem traces_iff {d : Dialogue (Turn α)} :
    Traces P log d ↔ Evolves (fun log _ c => P log c) log [] d := Iff.rfl

theorem Traces.done {t : Turn α} (h : P log t.control) : Traces P log (.done t) :=
  traces_iff.2 (.done h)

theorem Traces.ask {r : Request} {f : Outcome → Turn α}
    (h : ∀ o, P (log ++ [(r, o)]) (f o).control) : Traces P log (.ask r fun o => .done (f o)) := by
  intro idle script
  rw [Dialogue.transcript_ask_done, Dialogue.run_ask_done]
  exact h _

theorem Traces.bind {d : Dialogue (Turn α)} {f : Turn α → Dialogue (Turn β)}
    (h : Traces P log d) (hf : ∀ log t, P log t.control → Traces P log (f t)) :
    Traces P log (d >>= f) :=
  traces_iff.2 ((traces_iff.1 h).bind hf)

/-- What polls and sendings keep, the send loop keeps. -/
theorem Traces.sendRounds
    (hpoll : ∀ log c, P log c → Traces P log c.refresh)
    (hsend : ∀ log c, P log c → Traces P log c.send) (ticks : List Tick) (polled : Float)
    {c : Control} (h : P log c) : Traces P log (c.sendRounds polled ticks) :=
  traces_iff.2
    (.sendRounds (fun log _ c => hpoll log c) (fun log _ c => hsend log c) ticks polled h)

variable {Q : List Request → Control → Prop} {asked : List Request}

/-- Whatever the outcomes are, the requests of a program, after earlier ones, and the control that
it leaves are related as stated. -/
def Carries (P : List Request → Control → Prop) (log : List Request) (d : Dialogue (Turn α)) :
    Prop :=
  ∀ idle script,
    P (log ++ requests (d.run idle script).calls) (d.run idle script).value.control

/-- A relation to the requests is one to the requests with their outcomes. -/
theorem carries_iff {d : Dialogue (Turn α)} :
    Carries Q (log.map Prod.fst) d ↔ Traces (fun log c => Q (log.map Prod.fst) c) log d := by
  unfold Carries Traces
  simp only [List.map_append, Dialogue.map_fst_transcript]

theorem exists_transcript (asked : List Request) :
    ∃ log : List (Request × Outcome), log.map Prod.fst = asked := by
  refine ⟨asked.map fun r => (r, default), ?_⟩
  rw [List.map_map]
  exact List.map_id asked

theorem Carries.done {t : Turn α} (h : Q asked t.control) : Carries Q asked (.done t) := by
  obtain ⟨log, rfl⟩ := exists_transcript asked
  exact carries_iff.2 (.done h)

theorem Carries.ask {r : Request} {f : Outcome → Turn α}
    (h : ∀ o, Q (asked ++ [r]) (f o).control) : Carries Q asked (.ask r fun o => .done (f o)) := by
  intro idle script
  rw [Dialogue.run_ask_done]
  exact h _

theorem Carries.bind {d : Dialogue (Turn α)} {f : Turn α → Dialogue (Turn β)}
    (h : Carries Q asked d) (hf : ∀ asked t, Q asked t.control → Carries Q asked (f t)) :
    Carries Q asked (d >>= f) := by
  obtain ⟨log, rfl⟩ := exists_transcript asked
  exact carries_iff.2 ((carries_iff.1 h).bind fun _ t ht => carries_iff.1 (hf _ t ht))

/-- What polls and sendings carry on, the send loop carries on. -/
theorem Carries.sendRounds
    (hpoll : ∀ asked c, Q asked c → Carries Q asked c.refresh)
    (hsend : ∀ asked c, Q asked c → Carries Q asked c.send) (ticks : List Tick) (polled : Float)
    {c : Control} (h : Q asked c) : Carries Q asked (c.sendRounds polled ticks) := by
  obtain ⟨log, rfl⟩ := exists_transcript asked
  refine carries_iff.2 (.sendRounds ?_ ?_ ticks polled h)
  · exact fun _ c hc => carries_iff.1 (hpoll _ c hc)
  · exact fun _ c hc => carries_iff.1 (hsend _ c hc)

end Control
end RobotHand
