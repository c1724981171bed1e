import Mathlib
import RobotHand.Control.Operation

/-! What holds of every request that a program makes and of the value that it ends in, and runs of
operations. -/
namespace RobotHand

namespace Dialogue

variable {α β : Type} {asks : Request → Prop} {mid : α → Prop} {post : β → Prop}

/-- Every request is permitted and every final value is as stated, whatever the outcomes. -/
inductive Meets (asks : Request → Prop) (post : α → Prop) : Dialogue α → Prop
  | done {a} (h : post a) : Meets asks post (.done a)
  | ask {r next} (hr : asks r) (h : ∀ o, Meets asks post (next o)) : Meets asks post (.ask r next)
  | close {next} (h : Meets asks post next) : Meets asks post (.close next)
  | wait {seconds next} (h : Meets asks post next) : Meets asks post (.wait seconds next)

theorem Meets.bind {d : Dialogue α} {f : α → Dialogue β} (h : d.Meets asks mid)
    (hf : ∀ a, mid a → (f a).Meets asks post) : (d >>= f).Meets asks post := by
  induction h with
  | done h => exact hf _ h
  | ask hr _ ih => exact .ask hr ih
  | close _ ih => exact .close ih
  | wait _ ih => exact .wait ih

theorem Meets.mono {d : Dialogue β} {asks' : Request → Prop} {post' : β → Prop}
    (h : d.Meets asks post) (ha : ∀ r, asks r → asks' r) (hp : ∀ b, post b → post' b) :
    d.Meets asks' post' := by
  induction h with
  | done h => exact .done (hp _ h)
  | ask hr _ ih => exact .ask (ha _ hr) ih
  | close _ ih => exact .close ih
  | wait _ ih => exact .wait ih

theorem forall_request_cons {call : Call} {calls : List Call}
    (hcall : ∀ r, call = .request r → asks r) (h : ∀ r, .request r ∈ calls → asks r) :
    ∀ r, .request r ∈ call :: calls → asks r := by
  intro r hr
  rcases List.mem_cons.1 hr with heq | hmem
  · exact hcall r heq.symm
  · exact h r hmem

/-- Whatever the outcomes are, a run ends in such a value and makes such requests only. -/
theorem Meets.run {d : Dialogue β} (h : d.Meets asks post) (idle : Outcome)
    (script : List Outcome) :
    post (d.run idle script).value ∧
      ∀ r, .request r ∈ (d.run idle script).calls → asks r := by
  induction h generalizing script with
  | done h => exact ⟨h, nofun⟩
  | @ask r next hr _ ih =>
    have hcall : ∀ r', Call.request r = .request r' → asks r' := fun r' heq => by
      cases heq
      exact hr
    cases script with
    | nil => exact ⟨(ih idle []).1, forall_request_cons hcall (ih idle []).2⟩
    | cons o script => exact ⟨(ih o script).1, forall_request_cons hcall (ih o script).2⟩
  | close _ ih => exact ⟨(ih script).1, forall_request_cons nofun (ih script).2⟩
  | wait _ ih => exact ⟨(ih script).1, forall_request_cons nofun (ih script).2⟩

end Dialogue

namespace Control

variable {α β : Type} {asks : Request → Prop} {inv : Control → Prop} {tell : Event → Prop}
  {mid : α → Prop} {answer : β → Prop}

/-- A turn leaves such a state, tells such events, and has such a result if it has one. -/
structure Turn.Keeps (inv : Control → Prop) (tell : Event → Prop) (answer : α → Prop)
    (t : Turn α) : Prop where
  control : inv t.control
  events : ∀ e ∈ t.events, tell e
  result : ∀ a, t.result = .ok a → answer a

theorem Turn.Keeps.map {t : Turn α} {f : α → β} (h : t.Keeps inv tell mid)
    (hf : ∀ a, mid a → answer (f a)) : (t.map f).Keeps inv tell answer := by
  refine ⟨h.control, h.events, fun b hb => ?_⟩
  change t.result.map f = .ok b at hb
  cases hr : t.result with
  | error e =>
    rw [hr] at hb
    cases hb
  | ok a =>
    rw [hr] at hb
    cases hb
    exact hf a (h.result a hr)

theorem Turn.Keeps.andThen {t : Turn α} {f : Control → α → Dialogue (Turn β)}
    (h : t.Keeps inv tell mid)
    (hf : ∀ c a, inv c → mid a → (f c a).Meets asks (Turn.Keeps inv tell answer)) :
    (t.andThen f).Meets asks (Turn.Keeps inv tell answer) := by
  unfold Turn.andThen
  cases hr : t.result with
  | error e => exact .done ⟨h.control, h.events, nofun⟩
  | ok a =>
    refine (hf _ a h.control (h.result a hr)).bind fun later hlater => .done ?_
    refine ⟨hlater.control, fun e he => ?_, hlater.result⟩
    rcases List.mem_append.1 he with he | he
    · exact h.events e he
    · exact hlater.events e he

/-- One operation, with the outcomes of the requests that it makes. -/
structure Step where
  operation : Operation
  outcomes : List Outcome := []
  /-- The outcome of every further request. -/
  idle : Outcome := .failed ""

def Step.run (s : Step) (c : Control) : Dialogue.Run (Turn Answer) :=
  (c.perform s.operation).run s.idle s.outcomes

def after (c : Control) (steps : List Step) : Control :=
  steps.foldl (fun c s => (s.run c).value.control) c

/-- What every operation preserves holds after every run. -/
theorem after_induction {c : Control} (h : inv c)
    (hstep : ∀ c (s : Step), inv c → inv (s.run c).value.control) (steps : List Step) :
    inv (c.after steps) := by
  induction steps generalizing c with
  | nil => exact h
  | cons s steps ih => exact ih (hstep c s h)

variable {c now : Control} {steps : List Step} {s s' : Step} {i : Nat}

/-- Step `i` of a run, with the state that it finds. -/
def Occurs (c : Control) (steps : List Step) (i : Nat) (now : Control) (s : Step) : Prop :=
  steps[i]? = some s ∧ now = c.after (steps.take i)

theorem after_append (c : Control) (steps later : List Step) :
    c.after (steps ++ later) = (c.after steps).after later :=
  List.foldl_append

theorem after_snoc (c : Control) (steps : List Step) (s : Step) :
    c.after (steps ++ [s]) = (s.run (c.after steps)).value.control :=
  after_append c steps [s]

def recorded (record : Step → Control → List α) (c : Control) : List Step → List α
  | [] => []
  | s :: steps => record s c ++ recorded record (s.run c).value.control steps

theorem recorded_append (record : Step → Control → List α) (c : Control)
    (steps later : List Step) :
    recorded record c (steps ++ later) =
      recorded record c steps ++ recorded record (c.after steps) later := by
  induction steps generalizing c with
  | nil => rfl
  | cons s steps ih =>
    rw [List.cons_append, recorded, recorded, ih, List.append_assoc]
    rfl

theorem recorded_snoc (record : Step → Control → List α) (c : Control) (steps : List Step)
    (s : Step) :
    recorded record c (steps ++ [s]) = recorded record c steps ++ record s (c.after steps) := by
  rw [recorded_append, recorded, recorded, List.append_nil]

def eventsOf (c : Control) (steps : List Step) : List Event :=
  recorded (fun s now => (s.run now).value.events) c steps

theorem eventsOf_snoc (c : Control) (steps : List Step) (s : Step) :
    c.eventsOf (steps ++ [s]) = c.eventsOf steps ++ (s.run (c.after steps)).value.events :=
  recorded_snoc _ c steps s

/-- A step of a longer run is a step of the run before, or the last. -/
theorem occurs_snoc_iff :
    Occurs c (steps ++ [s]) i now s' ↔
      Occurs c steps i now s' ∨ i = steps.length ∧ now = c.after steps ∧ s' = s := by
  unfold Occurs
  rcases Nat.lt_trichotomy i steps.length with hlt | rfl | hgt
  · have hne : i ≠ steps.length := hlt.ne
    rw [List.getElem?_append_left hlt, List.take_append_of_le_length hlt.le]
    simp [hne]
  · simp [and_comm, eq_comm]
  · have hne : i ≠ steps.length := hgt.ne'
    have hnone : steps[i]? = none := List.getElem?_eq_none hgt.le
    have hnone' : (steps ++ [s])[i]? = none := by
      apply List.getElem?_eq_none
      rw [List.length_append, List.length_singleton]
      exact hgt
    simp [hne, hnone, hnone']

end Control
end RobotHand
