import RobotHand.Proofs.Control.Posting

/-! What a connection listener is told. Its notices and the connection of the control keep in step
through every operation, so through every run. -/
namespace RobotHand.Control

variable {α : Type} {c : Control} {before mid after : Bool} {bs bs' : List Bool}

def notices (events : List Event) : List Bool :=
  events.filterMap fun
    | .connection connected => some connected
    | _ => none

theorem notices_append (events later : List Event) :
    notices (events ++ later) = notices events ++ notices later :=
  List.filterMap_append

/-- Notices tell every change between two states of the connection, each of them once. -/
inductive TellChanges : Bool → List Bool → Bool → Prop
  | none (connected : Bool) : TellChanges connected [] connected
  | change {connected bs last} (h : TellChanges (!connected) bs last) :
      TellChanges connected ((!connected) :: bs) last

theorem TellChanges.append (h : TellChanges before bs mid) (h' : TellChanges mid bs' after) :
    TellChanges before (bs ++ bs') after := by
  induction h with
  | none connected => exact h'
  | change h ih => exact .change (ih h')

theorem TellChanges.isChain (h : TellChanges before bs after) :
    (before :: bs).IsChain (· ≠ ·) := by
  induction h with
  | none connected => exact .singleton connected
  | @change connected bs last h ih =>
    have hne : connected ≠ !connected := by simp
    exact .cons_cons hne ih

theorem TellChanges.head (h : TellChanges before bs after) : ∀ b ∈ bs.head?, b = !before := by
  cases h with
  | none => simp
  | change h => simp

theorem TellChanges.getLastD (h : TellChanges before bs after) : bs.getLastD before = after := by
  induction h with
  | none connected => rfl
  | @change connected bs last h ih =>
    rw [List.getLastD_cons]
    exact ih

def Turn.TellsChanges (c : Control) (t : Turn α) : Prop :=
  TellChanges c.connected (notices t.events) t.control.connected

theorem tellsChanges_of_quiet {t : Turn α} (hevents : notices t.events = [])
    (hconnected : t.control.connected = c.connected) : t.TellsChanges c := by
  unfold Turn.TellsChanges
  rw [hevents, hconnected]
  exact .none c.connected

theorem tellsChanges_setConnected (c : Control) (connected : Bool) :
    (c.setConnected connected).TellsChanges c := by
  unfold setConnected
  split
  · exact .none c.connected
  · next hne =>
    have hnot : connected = !c.connected := Bool.eq_not.2 (Ne.symm hne)
    subst hnot
    exact .change (.none _)

theorem tellsChanges_send (c : Control) (idle : Outcome) (script : List Outcome) :
    (c.send.run idle script).value.TellsChanges c := by
  obtain ⟨calls, t, rest, hrun, h⟩ := c.send_run idle script
  rw [hrun]
  cases h with
  | failed hready hdue hne hfails =>
    have hconnected : c.connected = true := (ready_iff.1 hready).2
    unfold Turn.TellsChanges
    rw [hconnected]
    exact .change (.none false)
  | _ => exact tellsChanges_of_quiet rfl rfl

theorem tellsChanges_afterPoll (c : Control) (o : Outcome) : (c.afterPoll o).TellsChanges c := by
  unfold afterPoll
  split
  · exact tellsChanges_of_quiet rfl rfl
  · exact tellsChanges_setConnected c false
  · next report _ =>
    have htold := tellsChanges_setConnected c true
    have hnotices : notices ((c.setConnected true).events ++ [.status report]) =
        notices (c.setConnected true).events := by
      rw [notices_append]
      exact List.append_nil _
    unfold Turn.TellsChanges
    rw [hnotices]
    exact htold

theorem tellsChanges_refresh (c : Control) (idle : Outcome) (script : List Outcome) :
    (c.refresh.run idle script).value.TellsChanges c := by
  by_cases h : c.client.address = ""
  · rw [refresh, if_pos h]
    exact tellsChanges_of_quiet rfl rfl
  · rw [refresh_eq h, Dialogue.run_ask_done]
    exact tellsChanges_afterPoll c _

theorem tellsChanges_sendLoop (c : Control) (ticks : List Tick) (idle : Outcome)
    (script : List Outcome) : ((c.sendLoop ticks).run idle script).value.TellsChanges c := by
  -- Whatever was told before, more of the same kind goes on telling every change.
  let R (_ : List (Request × Outcome)) (events : List Event) (now : Control) : Prop :=
    TellChanges c.connected (notices events) now.connected
  have hmore : ∀ {α : Type} {now : Control} {d : Dialogue (Turn α)} {log events},
      (∀ idle script, (d.run idle script).value.TellsChanges now) → R log events now →
        Evolves R log events d := by
    intro α now d log events hd h idle script
    change TellChanges c.connected (notices (events ++ _)) _
    rw [notices_append]
    exact h.append (hd idle script)
  have hloop : Evolves R [] [] (c.sendLoop ticks) :=
    .sendRounds (fun _ _ now => hmore (tellsChanges_refresh now))
      (fun _ _ now => hmore (tellsChanges_send now)) ticks 0 (TellChanges.none c.connected)
  exact hloop idle script

/-- Only an operation that talks to the robot or points at another tells of the connection. -/
theorem notices_run (c : Control) (s : Step)
    (haddress : ∀ address, s.operation ≠ .setAddress address) (hsend : s.operation ≠ .send)
    (hrefresh : s.operation ≠ .refresh) (hloop : ∀ ticks, s.operation ≠ .sendLoop ticks) :
    notices (s.run c).value.events = [] := by
  obtain ⟨operation, script, idle⟩ := s
  cases operation with
  | updateFormula servo formula =>
    change notices (c.updateFormula servo formula).events = []
    unfold updateFormula
    split
    · split <;> rfl
    · rfl
  | setFormulas formulas =>
    change notices (c.setFormulas formulas).events = []
    unfold setFormulas
    split <;> rfl
  | process frame =>
    change notices (c.process frame).events = []
    unfold process
    split
    · rfl
    · split <;> rfl
  | collect =>
    change notices c.collect.events = []
    rcases c.collect_cases with ⟨complaints, -, h⟩ | ⟨commands, -, h⟩ <;> rw [h] <;> rfl
  | sendLimits limits =>
    have hvalue := value_run_map (c.sendLimits limits) (fun _ => Answer.nothing) idle script
    refine (congrArg (fun t => notices t.events) hvalue).trans ?_
    change notices ((c.sendLimits limits).run idle script).value.events = []
    unfold sendLimits
    split
    · have hbind := Dialogue.run_bind idle (c.client.sendLimits limits)
        (fun reply => .done (⟨c, [], reply.mapError .link⟩ : Turn Unit)) script
      exact congrArg (fun run => notices run.value.events) hbind
    · rfl
  | setThreshold threshold => rfl
  | setInterval interval =>
    change notices (c.setInterval interval).events = []
    unfold setInterval
    split <;> rfl
  | start => rfl
  | stop => rfl
  | setAddress address => exact absurd rfl (haddress address)
  | send => exact absurd rfl hsend
  | refresh => exact absurd rfl hrefresh
  | sendLoop ticks => exact absurd rfl (hloop ticks)

/-- Every operation tells every change of the connection. -/
theorem tellsChanges_run (c : Control) (s : Step) : (s.run c).value.TellsChanges c := by
  have hquiet := notices_run c s
  have hsame := (run_changes c s).connection_eq
  obtain ⟨operation, script, idle⟩ := s
  cases operation with
  | setAddress address =>
    exact tellsChanges_setConnected { c with client := { c.client with address } } false
  | send =>
    rw [Step.run_send]
    exact tellsChanges_send c idle script
  | refresh =>
    rw [Step.run_refresh]
    exact tellsChanges_refresh c idle script
  | sendLoop ticks =>
    have hvalue : (Step.run ⟨.sendLoop ticks, script, idle⟩ c).value = _ :=
      value_run_map (c.sendLoop ticks) Answer.waits idle script
    rw [hvalue]
    exact tellsChanges_sendLoop c ticks idle script
  | _ =>
    exact tellsChanges_of_quiet (hquiet nofun nofun nofun nofun) (hsame nofun nofun nofun nofun).2

theorem tellChanges_eventsOf (c : Control) (steps : List Step) :
    TellChanges c.connected (notices (c.eventsOf steps)) (c.after steps).connected := by
  induction steps using List.reverseRecOn with
  | nil => exact .none c.connected
  | append_singleton steps s ih =>
    have hlast : TellChanges (c.after steps).connected _ _ := tellsChanges_run (c.after steps) s
    rw [eventsOf_snoc, notices_append, after_snoc]
    exact ih.append hlast

/-- The notices that a listener gets, from any point of a run on, alternate. The first one, if there
is one, is not what the connection was when the listener was added, and after every operation the
connection is what the last one says, or what it was if there is none. The polls and sendings of a
send loop are operations of their own here, as the loop is those, one after the other. -/
theorem listeners_see_every_change_once (c : Control) (before later : List Step) :
    let added := c.after before
    let told := notices (added.eventsOf later)
    told.IsChain (· ≠ ·) ∧ (∀ b ∈ told.head?, b = !added.connected) ∧
      told.getLastD added.connected = (c.after (before ++ later)).connected ∧
      ∀ ticks idle script,
        let loop := (added.sendLoop ticks).run idle script
        AmountsTo added (requests loop.calls) loop.value.events loop.value.control := by
  intro added told
  have htold : TellChanges added.connected told (added.after later).connected :=
    tellChanges_eventsOf added later
  refine ⟨htold.isChain.tail, htold.head, ?_, sendLoop_amountsTo added⟩
  rw [after_append]
  exact htold.getLastD

end RobotHand.Control
