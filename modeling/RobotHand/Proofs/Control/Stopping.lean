import RobotHand.Proofs.Control.Laps

/-! The background loops of a control. A signal that is set stays set, and a new loop gets a new
signal, so that of all loops started only the latest can be one that was not told to stop. -/
namespace RobotHand

namespace SendLoops

variable {l : SendLoops} {k : Nat}

theorem lt_of_isSet (h : l.isSet k) : k < l.signals.length := by
  by_contra hge
  rw [isSet, List.getElem?_eq_none (Nat.not_lt.1 hge)] at h
  cases h

theorem start_of_running (h : l.running) : l.start = l := if_pos h

theorem start_of_not_running (h : l.running = false) :
    l.start = { signals := l.signals ++ [false], latest := l.signals.length,
                started := l.started ++ [l.signals.length], running := true } := by
  rw [start, h]
  rfl

/-- A start leaves the signals that there are as they are. -/
theorem isSet_start (h : k < l.signals.length) : l.start.isSet k = l.isSet k := by
  cases hrunning : l.running with
  | true => rw [start_of_running hrunning]
  | false => rw [start_of_not_running hrunning, isSet, isSet, List.getElem?_append_left h]

theorem isSet_stop : l.stop.isSet k ↔ l.isSet k ∨ k = l.latest ∧ k < l.signals.length := by
  rw [isSet, isSet, stop, List.getElem?_set]
  by_cases hk : l.latest = k
  · subst hk
    by_cases hlt : l.latest < l.signals.length
    · simp [hlt]
    · simp [hlt]
  · have hne : k ≠ l.latest := Ne.symm hk
    simp [hk, hne]

/-- Every loop has a signal of its own, and the only one that may not be set is that of the latest
loop while the control runs. -/
structure Orderly (l : SendLoops) : Prop where
  known : l.latest < l.signals.length
  made : ∀ k ∈ l.started, k < l.signals.length
  distinct : l.started.Nodup
  unset_iff : ∀ k ∈ l.started, l.isSet k = false ↔ l.running ∧ k = l.latest
  latest : l.running → l.latest ∈ l.started

theorem orderly_fresh : Orderly {} where
  known := Nat.one_pos
  made := nofun
  distinct := .nil
  unset_iff := nofun
  latest := nofun

theorem Orderly.start (h : l.Orderly) : l.start.Orderly := by
  cases hrunning : l.running with
  | true => rwa [start_of_running hrunning]
  | false =>
    have hnew : l.signals.length ∉ l.started := fun hmem => (h.made _ hmem).false
    have hsame : ∀ k ∈ l.started, l.start.isSet k = l.isSet k :=
      fun k hk => isSet_start (h.made k hk)
    rw [start_of_not_running hrunning] at hsame ⊢
    constructor
    · simp
    · intro k hk
      rw [List.length_append, List.length_singleton]
      rcases List.mem_append.1 hk with hk | hk
      · exact Nat.lt_succ_of_lt (h.made k hk)
      · exact List.mem_singleton.1 hk ▸ Nat.lt_succ_self _
    · exact List.nodup_append'.2 ⟨h.distinct, List.nodup_singleton _,
        List.disjoint_singleton.2 hnew⟩
    · intro k hk
      rcases List.mem_append.1 hk with hk | hk
      · -- The earlier loops have all been told to stop.
        have hset : l.isSet k = true := by
          by_contra hunset
          have hnow := ((h.unset_iff k hk).1 (Bool.not_eq_true _ ▸ hunset)).1
          cases hrunning.symm.trans hnow
        have hne : k ≠ l.signals.length := (h.made k hk).ne
        rw [hsame k hk, hset]
        exact ⟨nofun, fun hlatest => absurd hlatest.2 hne⟩
      · cases List.mem_singleton.1 hk
        simp [isSet]
    · exact fun _ => List.mem_append_right _ (List.mem_singleton_self _)

theorem length_signals_stop : l.stop.signals.length = l.signals.length := List.length_set

theorem Orderly.stop (h : l.Orderly) : l.stop.Orderly where
  known := h.known.trans_eq length_signals_stop.symm
  made k hk := (h.made k hk).trans_eq length_signals_stop.symm
  distinct := h.distinct
  unset_iff k hk := by
    have hset : l.stop.isSet k := by
      rw [isSet_stop]
      by_cases hlatest : k = l.latest
      · exact .inr ⟨hlatest, h.made k hk⟩
      · refine .inl ?_
        by_contra hunset
        exact hlatest ((h.unset_iff k hk).1 (Bool.not_eq_true _ ▸ hunset)).2
    rw [hset]
    exact ⟨nofun, fun hlatest => absurd hlatest.1 Bool.false_ne_true⟩
  latest := nofun

/-- The loops that were not told to stop. -/
def unstopped (l : SendLoops) : List Nat := l.started.filter fun k => !l.isSet k

theorem Orderly.unstopped_eq (h : l.Orderly) :
    l.unstopped = if l.running then [l.latest] else [] := by
  have hunset : ∀ k ∈ l.started, (!l.isSet k) = decide (l.running ∧ k = l.latest) := by
    intro k hk
    rw [Bool.eq_iff_iff, Bool.not_eq_true', h.unset_iff k hk, decide_eq_true_iff]
  rw [unstopped, List.filter_congr hunset]
  cases hrunning : l.running with
  | true =>
    have honce : l.started.count l.latest = 1 :=
      List.count_eq_one_of_mem h.distinct (h.latest hrunning)
    simp only [true_and]
    rw [List.filter_eq, honce]
    rfl
  | false => simp

end SendLoops

namespace Control

variable {c : Control} {k : Nat}

def Operation.steer (l : SendLoops) : Operation → SendLoops
  | start => l.start
  | stop => l.stop
  | _ => l

theorem loops_run (c : Control) (s : Step) :
    (s.run c).value.control.loops = s.operation.steer c.loops := by
  have hsame := (run_changes c s).loops_eq
  obtain ⟨operation, script, idle⟩ := s
  cases operation with
  | start => rfl
  | stop => rfl
  | _ => exact hsame nofun nofun

theorem orderly_after (h : c.loops.Orderly) (steps : List Step) :
    (c.after steps).loops.Orderly := by
  refine @after_induction (fun c => c.loops.Orderly) c h (fun c s hc => ?_) steps
  rw [loops_run]
  cases s.operation with
  | start => exact hc.start
  | stop => exact hc.stop
  | _ => exact hc

/-- A signal that is set stays set. -/
theorem isSet_after (h : c.loops.isSet k) (steps : List Step) : (c.after steps).loops.isSet k := by
  refine @after_induction (fun c => c.loops.isSet k) c h (fun c s hc => ?_) steps
  rw [loops_run]
  cases s.operation with
  | start => exact (SendLoops.isSet_start (SendLoops.lt_of_isSet hc)).trans hc
  | stop => exact SendLoops.isSet_stop.2 (.inl hc)
  | _ => exact hc

/-- A loop whose signal is set does nothing more. -/
theorem laps_of_isSet {signal : Nat} {p : Progress} (h : p.control.loops.isSet signal)
    (idle : Outcome) (rounds : List Round) : laps idle signal p rounds = [] := by
  cases rounds with
  | nil => rfl
  | cons round rounds => rw [laps, if_pos (isSet_after h round.before)]

/-- Of the loops started so far, each with a signal of its own, one was not told to stop if the
control runs, and none if it does not. A loop that was told to stop stays so whatever is done later,
and begins no further lap. A start while the control runs changes nothing, and any other starts one
loop, which is not told to stop. -/
theorem one_loop_goes_on (c : Control) (hfresh : c.loops = {}) (steps : List Step) :
    let now := c.after steps
    now.loops.started.Nodup ∧ now.loops.unstopped.length = (if now.running then 1 else 0) ∧
      (∀ k, now.loops.isSet k → ∀ later,
        (now.after later).loops.isSet k ∧ ∀ polled script idle rounds,
          laps idle k ⟨polled, now.after later, script⟩ rounds = []) ∧
      (now.running → now.start = ⟨now, [], .ok ()⟩) ∧
      (¬ now.running → ∃ k, k ∉ now.loops.started ∧
        now.start.control.loops.started = now.loops.started ++ [k] ∧
        now.start.control.loops.unstopped = [k] ∧ now.start.control.running) ∧
      ¬ now.stop.control.running := by
  intro now
  have horderly : now.loops.Orderly :=
    orderly_after (hfresh ▸ SendLoops.orderly_fresh) steps
  refine ⟨horderly.distinct, ?_, fun k hk later => ?_, fun hrunning => ?_, fun hidle => ?_,
    Bool.false_ne_true⟩
  · rw [horderly.unstopped_eq]
    change (if now.running = true then _ else _ : List Nat).length = _
    split <;> rfl
  · have hset := isSet_after hk later
    exact ⟨hset, fun polled script => @laps_of_isSet k ⟨polled, now.after later, script⟩ hset⟩
  · rw [start, SendLoops.start_of_running hrunning]
  · have hstart := SendLoops.start_of_not_running (Bool.not_eq_true _ ▸ hidle)
    have hunstopped := horderly.start.unstopped_eq
    rw [hstart] at hunstopped
    refine ⟨now.loops.signals.length, fun hmem => (horderly.made _ hmem).false, ?_, ?_, ?_⟩
    · exact congrArg SendLoops.started hstart
    · exact (congrArg SendLoops.unstopped hstart).trans hunstopped
    · exact congrArg SendLoops.running hstart

/-- The second start is ignored, and the third starts a second loop while the first stays told to
stop. -/
theorem one_loop_goes_on_restarted :
    let steps : List Step :=
      [{ operation := .start }, { operation := .start }, { operation := .stop },
        { operation := .start }]
    let now := ({} : Control).after steps
    ({} : Control).loops = {} ∧ now.loops.started = [1, 2] ∧ now.running ∧
      now.loops.unstopped.length = 1 ∧ now.loops.isSet 1 ∧
      (now.after [{ operation := .start }]).loops.isSet 1 ∧ now.start = ⟨now, [], .ok ()⟩ := by
  intro steps now
  obtain ⟨-, hcount, hstay, hignored, -⟩ := one_loop_goes_on {} rfl steps
  have hnow : now.loops.started = [1, 2] ∧ now.running ∧ now.loops.isSet 1 := by decide +kernel
  obtain ⟨hstarted, hrunning, hset⟩ := hnow
  exact ⟨rfl, hstarted, hrunning, hcount.trans (if_pos hrunning), hset,
    (hstay 1 hset [{ operation := .start }]).1, hignored hrunning⟩

end Control
end RobotHand
