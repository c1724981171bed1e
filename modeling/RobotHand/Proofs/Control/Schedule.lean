import RobotHand.Proofs.Control.Undisturbed
import RobotHand.Proofs.Double.Differences

/-! The schedule of the send loop: its polls are at least two seconds apart, it waits for what is
left of the interval, and it goes on until its signal is set. -/
namespace RobotHand.Control

open Binary64

variable {idle : Outcome} {signal : Nat} {p : Progress} {round : Round} {rounds : List Round}
  {run earlier : List Lap} {lap : Lap}

/-- When the laps with a poll start. -/
def pollStarts (laps : List Lap) : List Float :=
  (laps.filter fun lap => lap.poll.isSome).map fun lap => lap.round.start

/-- A lap goes all the way if it polls exactly if two seconds have gone by since the last poll,
sends once after that, and asks to wait for what is left of the interval, if anything. A wait that
is too long fails, unless the signal is set by then. -/
structure Lap.Completes (lap : Lap) (signal : Nat) (c : Control) (polled : Float) : Prop where
  own : (TwoAbove polled lap.round.start ∧ lap.own.map Step.operation = [.refresh, .send]) ∨
    (¬ TwoAbove polled lap.round.start ∧ lap.own.map Step.operation = [.send])
  wait :
    let spent := lap.round.finish - lap.round.start
    let interval := (c.after lap.steps).interval
    lap.wait = if spent < interval then some (interval - spent) else none
  /-- The interval exceeds the exact time between two readings of the clock, not only the rounded
  one. -/
  waits : ∀ seconds, lap.wait = some seconds →
    let interval := (c.after lap.steps).interval
    (ofFloat lap.round.start).isFinite → (ofFloat lap.round.finish).isFinite →
      (ofFloat interval).isFinite →
        (ofFloat lap.round.finish).value - (ofFloat lap.round.start).value <
          (ofFloat interval).value
  ending : lap.ending =
    match lap.wait with
    | none => .ok ()
    | some seconds =>
      if (c.after lap.steps).loops.isSet signal then .ok ()
      else (Dialogue.checkPause seconds).mapError .breakdown

structure Lap.BreaksOff (lap : Lap) (polled : Float) : Prop where
  due : TwoAbove polled lap.round.start
  own : lap.own.map Step.operation = [.refresh]
  wait : lap.wait = none
  ending : ∃ reason, lap.ending = .error (.link (.overwhelmed reason))

/-- A lap keeps the schedule if it starts with the signal unset and the last poll at the given time,
and goes all the way unless the reader of a status breaks down. -/
structure Lap.Keeps (lap : Lap) (signal : Nat) (c : Control) (polled : Float) : Prop where
  unset : (c.after lap.round.before).loops.isSet signal = false
  completes : ¬ lap.Overwhelmed c → lap.Completes signal c polled
  breaksOff : lap.Overwhelmed c → lap.BreaksOff polled

theorem wait_eq (p : Progress) (idle : Outcome) (round : Round) :
    let spent := round.finish - round.start
    let interval := (p.next idle round).control.interval
    p.wait idle round = if spent < interval then some (interval - spent) else none := by
  rw [Progress.wait]
  simp only [zero_lt_sub_iff]

/-- A full lap whose last poll was at no time, or from two seconds on. -/
theorem fullLap_completes (hpolled : p.polled = 0 ∨ 2 ≤ p.polled) :
    (p.fullLap idle signal round).Completes signal p.control p.polled where
  own := by
    rw [← two_le_sub_iff hpolled]
    by_cases hdue : pollInterval ≤ round.start - p.polled
    · refine .inl ⟨hdue, ?_⟩
      rw [Lap.own, Progress.fullLap, Progress.poll, if_pos hdue]
      rfl
    · refine .inr ⟨hdue, ?_⟩
      rw [Lap.own, Progress.fullLap, Progress.poll, if_neg hdue]
      rfl
  wait := by
    rw [← Progress.control_next]
    exact wait_eq p idle round
  waits := by
    rw [← Progress.control_next]
    intro seconds hwait interval hstart hfinish hinterval
    have hwait : p.wait idle round = some seconds := hwait
    rw [wait_eq] at hwait
    split at hwait
    · next hlt => exact value_sub_lt hfinish hstart hinterval hlt
    · cases hwait
  ending := by
    rw [← Progress.control_next]
    rfl

theorem due_of_overwhelmed (h : (p.fullLap idle signal round).Overwhelmed p.control) :
    pollInterval ≤ round.start - p.polled := by
  obtain ⟨poll, hpoll, -⟩ := h
  by_contra hdue
  cases (if_neg hdue).symm.trans hpoll

theorem brokenLap_breaksOff {reason : String} (hpolled : p.polled = 0 ∨ 2 ≤ p.polled)
    (h : (p.fullLap idle signal round).Overwhelmed p.control) :
    (p.brokenLap idle round reason).BreaksOff p.polled where
  due := (two_le_sub_iff hpolled).1 (due_of_overwhelmed h)
  own := by
    rw [Lap.own, Progress.brokenLap, Progress.poll, if_pos (due_of_overwhelmed h)]
    rfl
  wait := rfl
  ending := ⟨reason, rfl⟩

/-- The start of the last poll is zero or from two seconds on. -/
theorem polled_next (hpolled : p.polled = 0 ∨ 2 ≤ p.polled) :
    (p.next idle round).polled = 0 ∨ 2 ≤ (p.next idle round).polled := by
  change (if pollInterval ≤ _ then round.start else p.polled) = 0 ∨
    2 ≤ if pollInterval ≤ _ then round.start else p.polled
  split
  · next h => exact .inr (((two_le_sub_iff hpolled).1 h).two_le hpolled)
  · exact hpolled

theorem waiting_error {e : Fault} (h : p.waiting idle signal round = .error e) :
    e = .breakdown .tooLongToWait := by
  rw [Progress.waiting] at h
  split at h
  · cases h
  · split at h
    · cases h
    · rw [Dialogue.checkPause] at h
      split at h <;> cases h
      rfl

theorem script_next_subset (p : Progress) (idle : Outcome) (round : Round) :
    (p.next idle round).script ⊆ p.script := by
  have hpolling : (p.polling idle round).rest ⊆ p.script := by
    rw [Progress.polling]
    split
    · exact List.Subset.refl _
    · next s h =>
      obtain rfl := Progress.eq_of_poll h
      exact Dialogue.rest_subset _ _ _
  exact List.Subset.trans (Dialogue.rest_subset _ _ _) hpolling

/-- A lap with a poll starts when the last poll before the next lap does. -/
theorem pollStarts_cons (p : Progress) (idle : Outcome) (signal : Nat) (round : Round)
    (run : List Lap) :
    pollStarts (p.fullLap idle signal round :: run) =
      if pollInterval ≤ round.start - p.polled then round.start :: pollStarts run
      else pollStarts run := by
  rw [pollStarts, List.filter_cons, Progress.fullLap, Progress.poll]
  split <;> rfl

theorem getLastD_pollStarts (p : Progress) (idle : Outcome) (signal : Nat) (round : Round)
    (run : List Lap) :
    (pollStarts run).getLastD (p.next idle round).polled =
      (pollStarts (p.fullLap idle signal round :: run)).getLastD p.polled := by
  rw [pollStarts_cons, Progress.next]
  split
  · rw [List.getLastD_cons]
  · rfl

theorem split_singleton {first : Lap} {later : List Lap} (h : [first] = earlier ++ lap :: later) :
    earlier = [] ∧ lap = first ∧ later = [] := by
  rcases List.singleton_eq_append_iff.1 h with ⟨hearlier, hlap⟩ | ⟨-, hlap⟩
  · obtain ⟨hlap, hlater⟩ := List.cons.inj hlap
    exact ⟨hearlier, hlap, hlater⟩
  · cases hlap

namespace Goes

/-- Every lap keeps the schedule after the laps before it. -/
theorem keeps (h : Goes idle signal p rounds run) (hpolled : p.polled = 0 ∨ 2 ≤ p.polled)
    {later : List Lap} (hsplit : run = earlier ++ lap :: later) :
    lap.Keeps signal (p.control.after (earlier.flatMap Lap.steps))
      ((pollStarts earlier).getLastD p.polled) := by
  induction h generalizing earlier with
  | finished => exact absurd hsplit (by simp)
  | stopped => exact absurd hsplit (by simp)
  | @lap p round rounds run hset hread hpolling hsending hwaiting h ih =>
    cases earlier with
    | nil =>
      cases hsplit
      exact ⟨hset, fun _ => fullLap_completes hpolled, fun hbreaks => absurd hbreaks hread⟩
    | cons first earlier =>
      obtain ⟨rfl, hrest⟩ := List.cons.inj hsplit
      have hkeeps := ih (polled_next hpolled) hrest
      rwa [Progress.control_next p idle signal round, ← after_append,
        getLastD_pollStarts p idle signal] at hkeeps
  | expired hset hread hpolling hsending hwaiting =>
    obtain ⟨rfl, rfl, -⟩ := split_singleton hsplit
    exact ⟨hset, fun _ => fullLap_completes hpolled, fun hbreaks => absurd hbreaks hread⟩
  | broken hset hbreaks hpolling =>
    obtain ⟨rfl, rfl, -⟩ := split_singleton hsplit
    exact ⟨hset, fun hread => absurd hbreaks hread, fun _ => brokenLap_breaksOff hpolled hbreaks⟩

/-- The polls are at least two seconds apart, also those that do not follow one another. -/
theorem pairwise_pollStarts (h : Goes idle signal p rounds run)
    (hpolled : p.polled = 0 ∨ 2 ≤ p.polled) : (p.polled :: pollStarts run).Pairwise TwoAbove := by
  induction h with
  | finished | stopped => exact List.pairwise_singleton _ _
  | @lap p round rounds run hset hread hpolling hsending hwaiting h ih =>
    have hlater := ih (polled_next hpolled)
    rw [pollStarts_cons]
    rw [Progress.next] at hlater
    split
    · next hdue =>
      rw [if_pos hdue] at hlater
      have habove := (two_le_sub_iff hpolled).1 hdue
      refine .cons (fun start hstart => ?_) hlater
      rcases List.mem_cons.1 hstart with rfl | hstart
      · exact habove
      · exact habove.trans (List.rel_of_pairwise_cons hlater hstart)
    · next hdue => rwa [if_neg hdue] at hlater
  | expired =>
    rw [pollStarts_cons]
    split
    · next hdue => exact List.pairwise_pair.2 ((two_le_sub_iff hpolled).1 hdue)
    · exact List.pairwise_singleton _ _
  | @broken p round rounds reason hset hbreaks hpolling =>
    have hdue := due_of_overwhelmed hbreaks
    have hstarts : pollStarts [p.brokenLap idle round reason] = [round.start] := by
      rw [pollStarts, List.filter_cons, Progress.brokenLap, Progress.poll, if_pos hdue]
      rfl
    rw [hstarts]
    exact List.pairwise_pair.2 ((two_le_sub_iff hpolled).1 hdue)

/-- The laps are those of the first rounds, and only the signal or a failure keeps a further one
from beginning. -/
theorem rounds_eq (h : Goes idle signal p rounds run) :
    rounds = run.map Lap.round ∨ ∃ round rest, rounds = run.map Lap.round ++ round :: rest ∧
      (((p.control.after (run.flatMap Lap.steps)).after round.before).loops.isSet signal ∨
        ∃ earlier lap e, run = earlier ++ [lap] ∧ lap.ending = .error e) := by
  induction h with
  | finished => exact .inl rfl
  | @stopped p round rounds h => exact .inr ⟨round, rounds, rfl, .inl h⟩
  | @lap p round rounds run hset hread hpolling hsending hwaiting h ih =>
    rcases ih with heq | ⟨round', rest, heq, hends⟩
    · exact .inl (congrArg _ heq)
    · refine .inr ⟨round', rest, congrArg _ heq, hends.imp (fun hstop => ?_) ?_⟩
      · rw [Progress.control_next p idle signal round] at hstop
        rwa [List.flatMap_cons, after_append]
      · rintro ⟨earlier, lap, e, rfl, he⟩
        exact ⟨_ :: earlier, lap, e, rfl, he⟩
  | @expired p round rounds e hset hread hpolling hsending hwaiting =>
    cases rounds with
    | nil => exact .inl rfl
    | cons round' rest =>
      exact .inr ⟨round', rest, rfl, .inr ⟨[], _, e, rfl, hwaiting⟩⟩
  | @broken p round rounds reason hset hbreaks hpolling =>
    cases rounds with
    | nil => exact .inl rfl
    | cons round' rest => exact .inr ⟨round', rest, rfl, .inr ⟨[], _, _, rfl, rfl⟩⟩

/-- Only the last lap may fail. -/
theorem ending_eq (h : Goes idle signal p rounds run) {later : List Lap}
    (hsplit : run = earlier ++ lap :: later) (hlater : later ≠ []) : lap.ending = .ok () := by
  induction h generalizing earlier with
  | finished => exact absurd hsplit (by simp)
  | stopped => exact absurd hsplit (by simp)
  | lap hset hread hpolling hsending hwaiting h ih =>
    cases earlier with
    | nil =>
      obtain ⟨rfl, -⟩ := List.cons.inj hsplit
      exact hwaiting
    | cons first earlier => exact ih (List.cons.inj hsplit).2
  | expired =>
    obtain ⟨-, -, hnone⟩ := split_singleton hsplit
    exact absurd hnone hlater
  | broken =>
    obtain ⟨-, -, hnone⟩ := split_singleton hsplit
    exact absurd hnone hlater

/-- While the robot's answers are read or refused, no answer makes a lap fail. -/
theorem survives (h : Goes idle signal p rounds run) (hidle : idle.Decodes)
    (hscript : ∀ o ∈ p.script, o.Decodes) :
    ∀ lap ∈ run, lap.send.isSome ∧ ∀ e, lap.ending = .error e → e = .breakdown .tooLongToWait := by
  induction h with
  | finished | stopped => exact fun _ h => absurd h List.not_mem_nil
  | @lap p round rounds run hset hread hpolling hsending hwaiting h ih =>
    have hnext : ∀ o ∈ (p.next idle round).script, o.Decodes :=
      fun o ho => hscript o (script_next_subset p idle round ho)
    refine List.forall_mem_cons.2 ⟨⟨rfl, fun e he => ?_⟩, ih hnext⟩
    cases hwaiting.symm.trans he
  | @expired p round rounds e hset hread hpolling hsending hwaiting =>
    exact List.forall_mem_singleton.2 ⟨rfl, fun e he => waiting_error he⟩
  | @broken p round rounds reason hset hbreaks hpolling =>
    obtain ⟨poll, hpoll, -, hbreaks⟩ := hbreaks
    obtain rfl := Progress.eq_of_poll hpoll
    have hdecodes : (p.script.headD idle).Decodes := by
      cases hempty : p.script with
      | nil => exact hidle
      | cons o script => exact hscript o (hempty ▸ List.mem_cons_self)
    exact absurd hbreaks hdecodes.not_overwhelms

end Goes

end RobotHand.Control
