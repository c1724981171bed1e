import RobotHand.Proofs.Control.Posting
import RobotHand.Proofs.Double.Values

/-! Which positions the threshold lets through, in one collection and over a run. -/
namespace RobotHand.Control

variable {c start now : Control} {steps : List Step} {s : Step} {commands : List Servo.Command}
  {id p : Int}

/-- A position is further from another than a threshold, which none is if that is infinite. -/
def FurtherThan (threshold : Float) (p q : Int) : Prop :=
  (Binary64.ofFloat threshold).isFinite ∧
    (Binary64.ofFloat threshold).value < |((p - q : Int) : ℚ)|

/-- The last position of a servo that was marked as sent, or zero. -/
def lastSent (c : Control) (id : Int) : Int := (c.sent.get? id).getD 0

theorem hasMoved_iff (h : 0 ≤ c.threshold) :
    c.hasMoved id p ↔ FurtherThan c.threshold p (c.lastSent id) := by
  have hzero := Binary64.natLe_zero_iff.2 h
  have hmoved : c.hasMoved id p ↔
      ¬ (Binary64.ofFloat c.threshold).natLe (p - c.lastSent id).natAbs := by
    rw [hasMoved, Bool.not_eq_true', Bool.not_eq_true]
    rfl
  rw [hmoved, FurtherThan]
  cases hb : Binary64.ofFloat c.threshold with
  | nan =>
    rw [hb] at hzero
    exact absurd hzero Bool.false_ne_true
  | infinite negative =>
    rw [hb] at hzero
    have hnatLe : ∀ n, (Binary64.infinite negative).natLe n := fun _ => hzero
    simp [hnatLe, Binary64.isFinite]
  | finite negative s e =>
    have hfinite : (Binary64.finite negative s e).isFinite = true := rfl
    have hcast : ((p - c.lastSent id).natAbs : ℚ) = |((p - c.lastSent id : Int) : ℚ)| := by
      rw [Nat.cast_natAbs, Int.cast_abs]
    rw [Binary64.natLe_iff hfinite, not_le, hcast]
    exact ⟨fun hlt => ⟨hfinite, hlt⟩, And.right⟩

theorem mem_due_iff (h : 0 ≤ c.threshold) :
    (id, p) ∈ c.due ↔
      c.calculated.get? id = some p ∧ FurtherThan c.threshold p (c.lastSent id) := by
  rw [mem_due, hasMoved_iff h]

def positionsOf (id : Int) (commands : List Servo.Command) : List Int :=
  (commands.filter fun command => command.id = id).map Servo.Command.position

theorem positionsOf_append (commands later : List Servo.Command) :
    positionsOf id (commands ++ later) = positionsOf id commands ++ positionsOf id later := by
  rw [positionsOf, List.filter_append, List.map_append]
  rfl

theorem positionsOf_of_not_mem (h : id ∉ commands.map Servo.Command.id) :
    positionsOf id commands = [] := by
  have hfilter : (commands.filter fun command => command.id = id) = [] := by
    apply List.filter_eq_nil_iff.2
    intro command hmem
    have hne : command.id ≠ id := fun heq => h (List.mem_map.2 ⟨command, hmem, heq⟩)
    simp [hne]
  rw [positionsOf, hfilter]
  rfl

/-- A servo that is commanded once has one position. -/
theorem positionsOf_of_mem {command : Servo.Command}
    (hnodup : (commands.map Servo.Command.id).Nodup) (h : command ∈ commands) :
    positionsOf command.id commands = [command.position] := by
  induction commands with
  | nil => cases h
  | cons first rest ih =>
    obtain ⟨hfirst, hrest⟩ := List.nodup_cons.1 hnodup
    have hcons : positionsOf command.id (first :: rest) =
        positionsOf command.id [first] ++ positionsOf command.id rest :=
      positionsOf_append [first] rest
    rw [hcons]
    rcases List.mem_cons.1 h with rfl | hmem
    · rw [positionsOf_of_not_mem hfirst]
      simp [positionsOf]
    · have hne : first.id ≠ command.id := fun heq =>
        hfirst (List.mem_map.2 ⟨command, hmem, heq.symm⟩)
      rw [ih hrest hmem]
      simp [positionsOf, hne]

/-- Since the start, these commands were collected; each position of a servo is further than the
threshold from the one before, and the last one is marked as sent. -/
structure Filtered (start : Control) (commands : List Servo.Command) (now : Control) : Prop where
  threshold : now.threshold = start.threshold
  lastSent : ∀ id, (start.lastSent id :: positionsOf id commands).getLast? = some (now.lastSent id)
  apart : ∀ id, (start.lastSent id :: positionsOf id commands).IsChain fun p q =>
    FurtherThan start.threshold q p

theorem Filtered.refl (start : Control) : Filtered start [] start :=
  ⟨rfl, fun _ => rfl, fun id => List.isChain_singleton (start.lastSent id)⟩

theorem Filtered.congr {now' : Control} (h : Filtered start commands now)
    (hthreshold : now'.threshold = now.threshold) (hsent : now'.sent = now.sent) :
    Filtered start commands now' := by
  have hlast : ∀ id, now'.lastSent id = now.lastSent id := fun id => by
    rw [Control.lastSent, hsent, Control.lastSent]
  exact ⟨hthreshold.trans h.threshold, fun id => (hlast id).symm ▸ h.lastSent id, h.apart⟩

theorem map_id_commands {commands : List Servo.Command}
    (hdue : now.due = commands.map Servo.Command.entry) :
    commands.map Servo.Command.id = now.due.map Prod.fst := by
  rw [hdue, List.map_map]
  rfl

/-- What is due is further than the threshold from what was marked before. -/
theorem Filtered.mark {later : List Servo.Command} (h : Filtered start commands now)
    (hnonneg : 0 ≤ start.threshold) (hdue : now.due = later.map Servo.Command.entry) :
    Filtered start (commands ++ later) now.marked := by
  have hnow : 0 ≤ now.threshold := h.threshold ▸ hnonneg
  have hkeys := map_id_commands hdue
  have hnodup : (later.map Servo.Command.id).Nodup := hkeys ▸ now.nodup_keys_due
  -- Each servo is collected at most once.
  have hcase : ∀ id, positionsOf id (commands ++ later) = positionsOf id commands ∧
        now.marked.lastSent id = now.lastSent id ∨
      ∃ p, positionsOf id (commands ++ later) = positionsOf id commands ++ [p] ∧
        now.marked.lastSent id = p ∧ FurtherThan start.threshold p (now.lastSent id) := by
    intro id
    rw [positionsOf_append]
    by_cases hmem : id ∈ later.map Servo.Command.id
    · obtain ⟨command, hcommand, rfl⟩ := List.mem_map.1 hmem
      have hentry : command.entry ∈ now.due := hdue ▸ List.mem_map_of_mem hcommand
      have hsent : now.marked.sent.get? command.id = some command.position :=
        Table.get?_putAll_of_mem now.nodup_keys_due hentry now.sent
      have hmoved := ((mem_due_iff hnow).1 hentry).2
      rw [positionsOf_of_mem hnodup hcommand, Control.lastSent, hsent]
      exact .inr ⟨command.position, rfl, rfl, h.threshold ▸ hmoved⟩
    · have hsent : now.marked.sent.get? id = now.sent.get? id :=
        Table.get?_putAll_of_not_mem (hkeys ▸ hmem) now.sent
      rw [positionsOf_of_not_mem hmem, List.append_nil, Control.lastSent, hsent]
      exact .inl ⟨rfl, rfl⟩
  refine ⟨h.threshold, fun id => ?_, fun id => ?_⟩
  · rcases hcase id with ⟨hpositions, hlast⟩ | ⟨p, hpositions, hlast, -⟩
    · rw [hpositions, hlast, h.lastSent id]
    · rw [hpositions, hlast, ← List.cons_append, List.getLast?_concat]
  · rcases hcase id with ⟨hpositions, -⟩ | ⟨p, hpositions, -, hfurther⟩
    · rw [hpositions]
      exact h.apart id
    · rw [hpositions, ← List.cons_append, List.isChain_append]
      refine ⟨h.apart id, List.isChain_singleton p, fun q hq p' hp' => ?_⟩
      rw [h.lastSent id] at hq
      cases hq
      cases hp'
      exact hfurther

/-- The commands that a step collects; a sending posts what it collects. -/
def Step.collected (s : Step) (now : Control) : List Servo.Command :=
  match s.operation with
  | .collect => now.collect.result.toOption.getD []
  | _ => (s.requests now).flatMap Request.commands

def collectedOf (c : Control) (steps : List Step) : List Servo.Command :=
  recorded Step.collected c steps

theorem Filtered.collect (h : Filtered start commands now) (hnonneg : 0 ≤ start.threshold) :
    Filtered start (commands ++ now.collect.result.toOption.getD []) now.collect.control := by
  rcases now.collect_cases with ⟨complaints, -, hcollect⟩ | ⟨later, hlater, hcollect⟩
  · rw [hcollect]
    change Filtered start (commands ++ []) now
    rw [List.append_nil]
    exact h
  · rw [hcollect]
    exact h.mark hnonneg hlater.symm

section Sending

variable {earlier : List Servo.Command} {log : List Request}

theorem carries_filtered_refresh
    (h : Filtered start (earlier ++ log.flatMap Request.commands) now) :
    Carries (fun log now => Filtered start (earlier ++ log.flatMap Request.commands) now) log
      now.refresh := by
  by_cases haddress : now.client.address = ""
  · rw [refresh, if_pos haddress]
    exact .done h
  · rw [refresh_eq haddress]
    apply Carries.ask
    intro o
    obtain ⟨connected, hcontrol⟩ := now.afterPoll_control o
    rw [hcontrol, List.flatMap_append, List.flatMap_singleton, Client.commands_polling,
      List.append_nil]
    exact h.congr rfl rfl

theorem carries_filtered_send (hnonneg : 0 ≤ start.threshold)
    (h : Filtered start (earlier ++ log.flatMap Request.commands) now) :
    Carries (fun log now => Filtered start (earlier ++ log.flatMap Request.commands) now) log
      now.send := by
  intro idle script
  obtain ⟨calls, t, rest, hrun, hsending⟩ := now.send_run idle script
  rw [hrun]
  cases hsending with
  | notReady | invalid | idle =>
    have hlog : log ++ requests [] = log := List.append_nil log
    rw [hlog]
    exact h
  | posted _ hdue | failed _ hdue =>
    have hlog : ∀ commands, earlier ++ (log ++ [now.posting commands]).flatMap Request.commands =
        earlier ++ log.flatMap Request.commands ++ commands := fun commands => by
      rw [List.flatMap_append, List.flatMap_singleton, commands_posting, List.append_assoc]
    change Filtered start (earlier ++ (log ++ [now.posting _]).flatMap Request.commands) _
    rw [hlog]
    exact (h.mark hnonneg hdue).congr rfl rfl

end Sending

/-- One step at the same threshold. -/
theorem Filtered.step (h : Filtered start commands now) (hnonneg : 0 ≤ start.threshold)
    (hthreshold : (s.run now).value.control.threshold = start.threshold) :
    Filtered start (commands ++ s.collected now) (s.run now).value.control := by
  have hbefore : Filtered start (commands ++ [].flatMap Request.commands) now := by
    rw [List.flatMap_nil, List.append_nil]
    exact h
  have hdone : ∀ {α : Type} (f : α → Answer) (log : List Request) (t : Turn α),
      Filtered start (commands ++ log.flatMap Request.commands) t.control →
        Carries (fun log now => Filtered start (commands ++ log.flatMap Request.commands) now) log
          (.done (t.map f)) :=
    fun f log t ht => .done ht
  obtain ⟨operation, script, idle⟩ := s
  cases operation with
  | collect => exact h.collect hnonneg
  | send => exact ((carries_filtered_send hnonneg hbefore).bind (hdone .flag)) idle script
  | refresh => exact ((carries_filtered_refresh hbefore).bind (hdone .status)) idle script
  | sendLoop ticks =>
    have hloop := Carries.sendRounds (fun _ _ => carries_filtered_refresh)
      (fun _ _ => carries_filtered_send hnonneg) ticks 0 hbefore
    exact (hloop.bind (hdone .waits)) idle script
  | _ =>
    change Filtered start (commands ++ []) _
    rw [List.append_nil]
    exact h.congr (hthreshold.trans h.threshold.symm)
      ((run_changes now _).sent_eq nofun nofun nofun)

/-- A run at the same threshold. -/
theorem filtered_after (hnonneg : 0 ≤ start.threshold) {steps : List Step}
    (hthreshold : ∀ before, before <+: steps →
      (start.after before).threshold = start.threshold) :
    Filtered start (start.collectedOf steps) (start.after steps) := by
  induction steps using List.reverseRecOn with
  | nil => exact .refl start
  | append_singleton steps s ih =>
    have hbefore := ih fun before hpart =>
      hthreshold before (hpart.trans (List.prefix_append steps [s]))
    have hlast := hthreshold (steps ++ [s]) (List.prefix_refl _)
    rw [after_snoc] at hlast
    rw [collectedOf, recorded_snoc, after_snoc]
    exact hbefore.step hnonneg hlast

/-- With a threshold of zero or more, a collection gives, in ascending order, the servos whose
calculated position is further than the threshold from the one marked as sent, and marks these
positions and nothing else; then no servo is further away, and another collection gives nothing.
Over a run at one threshold, each position that is collected for a servo is further than the
threshold from the one before, and the first one from the mark at the start, which is zero for a
servo that has none. -/
theorem threshold_filters_collections (c : Control) (hthreshold : 0 ≤ c.threshold) :
    ((∀ id ∈ c.calculated.keys, 1 ≤ id) →
      ∃ commands, c.collect.result = .ok commands ∧
        (commands.map Servo.Command.id).Pairwise (· < ·) ∧
        (∀ command, command ∈ commands ↔
          c.calculated.get? command.id = some command.position ∧
            FurtherThan c.threshold command.position (c.lastSent command.id)) ∧
        (∃ sent, c.collect.control = { c with sent }) ∧
        (∀ id, c.collect.control.sent.get? id =
          if id ∈ commands.map Servo.Command.id then c.calculated.get? id else c.sent.get? id) ∧
        (∀ id p, c.calculated.get? id = some p →
          ¬ FurtherThan c.threshold p (c.collect.control.lastSent id)) ∧
        c.collect.control.collect = ⟨c.collect.control, [], .ok []⟩) ∧
    ∀ steps, (∀ before, before <+: steps → (c.after before).threshold = c.threshold) →
      ∀ id, (c.lastSent id :: positionsOf id (c.collectedOf steps)).IsChain fun p q =>
        FurtherThan c.threshold q p := by
  refine ⟨fun hids => ?_, fun steps hsteps => (filtered_after hthreshold hsteps).apart⟩
  rcases c.collect_cases with ⟨complaints, ⟨e, he, hlt⟩, -⟩ | ⟨commands, hcommands, hcollect⟩
  · have hkey : e.1 ∈ c.calculated.keys := Table.mem_keys_iff.2 ⟨e.2, (mem_due.1 he).1⟩
    have hle := hids e.1 hkey
    omega
  · have hkeys := map_id_commands hcommands.symm
    have hmarked : 0 ≤ c.marked.threshold := hthreshold
    rw [hcollect]
    refine ⟨commands, rfl, ?_, fun command => ?_, ⟨_, rfl⟩, fun id => ?_, fun id p hp => ?_, ?_⟩
    · rw [hkeys]
      exact List.pairwise_map.2 (c.pairwise_ascending.filter _)
    · have hmem : command ∈ commands ↔ command.entry ∈ c.due := by
        rw [← hcommands, List.mem_map_of_injective Servo.Command.entry_injective]
      rw [hmem]
      exact mem_due_iff hthreshold
    · split
      · next hmem =>
        obtain ⟨command, hcommand, rfl⟩ := List.mem_map.1 hmem
        have hentry : command.entry ∈ c.due := hcommands ▸ List.mem_map_of_mem hcommand
        have hsent : c.marked.sent.get? command.id = some command.position :=
          Table.get?_putAll_of_mem c.nodup_keys_due hentry c.sent
        exact hsent.trans (mem_due.1 hentry).1.symm
      · next hmem => exact Table.get?_putAll_of_not_mem (hkeys ▸ hmem) c.sent
    · intro hfurther
      have hdue : (id, p) ∈ c.marked.due := (mem_due_iff hmarked).2 ⟨hp, hfurther⟩
      rw [due_marked hthreshold] at hdue
      cases hdue
    · have hnone : c.marked.due = [] := due_marked hthreshold
      have hagain : c.marked.collect = ⟨c.marked.marked, [], .ok []⟩ := collect_of_due hnone
      rw [hagain, marked_of_idle hnone]

/-- One servo has moved from zero to 100, which is collected once. -/
theorem threshold_filters_collections_waiting :
    let steps := [Operation.collect, Operation.collect].map Operation.answered
    0 ≤ waiting.threshold ∧ (∀ id ∈ waiting.calculated.keys, 1 ≤ id) ∧
      waiting.collectedOf steps = [waitingCommand] ∧
      (∃ commands, waiting.collect.result = .ok commands ∧ waitingCommand ∈ commands) ∧
      [0, 100].IsChain fun p q => FurtherThan waiting.threshold q p := by
  intro steps
  obtain ⟨-, hcalculated, hsent, hthreshold, -⟩ := waiting_spec
  have hids : ∀ id ∈ waiting.calculated.keys, 1 ≤ id := by
    rw [Table.keys, hcalculated]
    decide
  have hfirst : waiting.collect = ⟨waiting.marked, [], .ok [waitingCommand]⟩ :=
    collect_of_due due_waiting
  have hsecond : waiting.marked.collect = ⟨waiting.marked.marked, [], .ok []⟩ :=
    collect_of_due (due_marked hthreshold)
  have hafter : Operation.collect.answered.run waiting =
      ⟨⟨waiting.marked, [], .ok (.commands [waitingCommand])⟩, [], []⟩ :=
    congrArg (fun t => Dialogue.Run.mk (Turn.map Answer.commands t) [] []) hfirst
  have hcollected : waiting.collectedOf steps = [waitingCommand] := by
    change waiting.collect.result.toOption.getD [] ++
      ((Operation.collect.answered.run waiting).value.control.collect.result.toOption.getD [] ++
        []) = _
    rw [hafter, hfirst, hsecond]
    rfl
  obtain ⟨hcollect, hruns⟩ := threshold_filters_collections waiting hthreshold
  have hchain := hruns steps ?_ 1
  · have hlast : waiting.lastSent 1 = 0 := by
      rw [lastSent, hsent]
      rfl
    rw [hcollected, hlast] at hchain
    have hfurther : FurtherThan waiting.threshold 100 0 := hchain.rel
    obtain ⟨commands, hresult, -, hmem, -⟩ := hcollect hids
    refine ⟨hthreshold, hids, hcollected, ⟨commands, hresult, (hmem waitingCommand).2 ⟨?_, ?_⟩⟩,
      hchain⟩
    · change waiting.calculated.get? 1 = some 100
      rw [Table.get?, hcalculated]
      rfl
    · change FurtherThan waiting.threshold 100 (waiting.lastSent 1)
      rw [hlast]
      exact hfurther
  · intro before hpart
    apply threshold_after
    intro s hs
    have hcollect : s.operation = .collect := by
      have hmem := hpart.subset hs
      simp only [steps, List.map_cons, List.map_nil, List.mem_cons, List.not_mem_nil, or_false,
        or_self] at hmem
      rw [hmem]
      rfl
    rw [hcollect]
    intro threshold heq
    cases heq

end RobotHand.Control
