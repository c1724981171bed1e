import RobotHand.Proofs.Control.Collecting
import RobotHand.Proofs.Control.Evaluating
import RobotHand.Proofs.Control.Runs
import RobotHand.Proofs.Evaluation.Settling

/-! No position outside the range of its servo is calculated, collected or sent. -/
namespace RobotHand.Control

variable {m : Int → Int} {c : Control}

/-- A position between zero and the maximum of its servo. -/
def InRange (m : Int → Int) (id position : Int) : Prop := 0 ≤ position ∧ position ≤ m id

def AllInRange (m : Int → Int) (t : Table Int Int) : Prop := ∀ e ∈ t.entries, InRange m e.1 e.2

/-- The positions that a control holds are in range. -/
structure Bounded (m : Int → Int) (c : Control) : Prop where
  maximum : ∀ id, c.maximum id = m id
  calculated : AllInRange m c.calculated
  sent : AllInRange m c.sent

def Event.InRange (m : Int → Int) : Event → Prop
  | .calculated t | .sent t => AllInRange m t
  | _ => True

def Answer.InRange (m : Int → Int) : Answer → Prop
  | .positions t => AllInRange m t
  | .commands cs => ∀ cmd ∈ cs, Control.InRange m cmd.id cmd.position
  | _ => True

def PostsInRange (m : Int → Int) (r : Request) : Prop :=
  r.method = .post → ∃ commands : List Servo.Command,
    r.body = some (.array (commands.map Servo.Command.json)) ∧
      ∀ cmd ∈ commands, InRange m cmd.id cmd.position

/-- Maxima that are exact as floats, with their halves. -/
def Moderate (m : Int → Int) : Prop := ∀ id, 0 ≤ m id ∧ m id ≤ 2 ^ 51

/-- A formula that gives a position gives one between its bounds. -/
theorem position_inRange {formula : Option String} {frame : Frame} {high p : Int} (h0 : 0 ≤ high)
    (h : high ≤ 2 ^ 51) (hp : Formula.position formula frame Servo.minimum high = .ok p) :
    0 ≤ p ∧ p ≤ high := by
  obtain ⟨v, -, hp⟩ := bind_eq_ok_iff.1 hp
  have hsettle : Formula.settle v 0 high = .ok p := mapError_eq_ok_iff.1 hp
  by_cases hv : (Binary64.ofFloat v).isFinite
  · have hhigh : high.natAbs ≤ 2 ^ 51 := by omega
    obtain ⟨p', hp', hlow, hhigh⟩ := @Formula.settle_finite v 0 high (by decide) hhigh hv
    rw [hp'] at hsettle
    cases hsettle
    omega
  · rw [Formula.settle_not_finite 0 high hv] at hsettle
    cases hsettle

theorem positionsOn_inRange (hm : Moderate m) (hc : Bounded m c) {hand : List Landmark}
    {positions : List (Int × Int)} (h : c.positionsOn hand = .ok positions) :
    ∀ e ∈ positions, InRange m e.1 e.2 := by
  intro e he
  obtain ⟨formula, -, hp⟩ := (mem_positionsOn h).1 he
  obtain ⟨h0, h51⟩ := hm e.1
  rw [hc.maximum] at hp
  exact position_inRange h0 h51 hp

theorem process_keeps (hm : Moderate m) (hc : Bounded m c) (frame : Frame) :
    (c.process frame).Keeps (Bounded m) (Event.InRange m) (AllInRange m) := by
  unfold process
  split
  · refine ⟨hc, nofun, fun t ht => ?_⟩
    cases ht
    exact hc.calculated
  · next hand =>
    split
    · exact ⟨hc, nofun, nofun⟩
    · next positions h =>
      have hall := Table.forall_entries_putAll hc.calculated (positionsOn_inRange hm hc h)
      refine ⟨⟨hc.maximum, hall, hc.sent⟩, fun e he => ?_, fun t ht => ?_⟩
      · rw [List.mem_singleton.1 he]
        exact hall
      · cases ht
        exact hall

theorem due_inRange (hc : Bounded m c) : ∀ e ∈ c.due, InRange m e.1 e.2 := by
  intro e he
  exact hc.calculated e (Table.get?_eq_some_iff.1 (mem_due.1 he).1)

theorem collect_keeps (hc : Bounded m c) :
    c.collect.Keeps (Bounded m) (Event.InRange m)
      fun cs => ∀ cmd ∈ cs, InRange m cmd.id cmd.position := by
  rcases c.collect_cases with ⟨complaints, -, h⟩ | ⟨commands, hcommands, h⟩
  · rw [h]
    exact ⟨hc, nofun, nofun⟩
  · rw [h]
    have hsent := Table.forall_entries_putAll hc.sent (due_inRange hc)
    refine ⟨⟨hc.maximum, hc.calculated, hsent⟩, nofun, ?_⟩
    intro cs hcs cmd hcmd
    cases hcs
    have hdue : cmd.entry ∈ c.due := hcommands ▸ List.mem_map_of_mem hcmd
    exact due_inRange hc cmd.entry hdue

theorem setConnected_keeps (hc : Bounded m c) (connected : Bool) :
    (c.setConnected connected).Keeps (Bounded m) (Event.InRange m) fun _ => True := by
  unfold setConnected
  split
  · exact ⟨hc, nofun, fun _ _ => trivial⟩
  · refine ⟨⟨hc.maximum, hc.calculated, hc.sent⟩, fun e he => ?_, fun _ _ => trivial⟩
    rw [List.mem_singleton.1 he]
    trivial

/-- An exchange makes one request at most. -/
theorem exchange_meets {asks : Request → Prop} (client : Client) (method : Method)
    (body : Option Json)
    (h : ∀ url, asks ⟨method, url, body, client.timeout⟩) :
    (client.exchange method body).Meets asks fun _ => True := by
  unfold Client.exchange
  split
  · exact .done trivial
  · next url _ =>
    refine .ask (h url) fun o => ?_
    cases o <;> exact .done trivial

theorem post_meets {asks : Request → Prop} (client : Client) (body : Json)
    (h : ∀ url, asks ⟨.post, url, some body, client.timeout⟩) :
    (client.post body).Meets asks fun _ => True :=
  (exchange_meets client .post (some body) h).bind fun _ _ => .done trivial

theorem send_keeps (hc : Bounded m c) :
    c.send.Meets (PostsInRange m) (Turn.Keeps (Bounded m) (Event.InRange m) fun _ => True) := by
  unfold send
  split
  · refine (collect_keeps hc).andThen fun c commands hc hcommands => ?_
    split
    · exact .done ⟨hc, nofun, fun _ _ => trivial⟩
    · have hpost : (c.client.sendPositions commands).Meets (PostsInRange m) fun _ => True :=
        post_meets c.client _ fun _ _ => ⟨commands, rfl, hcommands⟩
      refine hpost.bind fun reply _ => ?_
      cases reply with
      | error e => exact .done ((setConnected_keeps hc false).map fun _ _ => trivial)
      | ok reply =>
        refine .done ⟨hc, fun e he => ?_, fun _ _ => trivial⟩
        rw [List.mem_singleton.1 he]
        exact hc.sent
  · exact .done ⟨hc, nofun, fun _ _ => trivial⟩

theorem refresh_keeps (hc : Bounded m c) :
    c.refresh.Meets (PostsInRange m)
      (Turn.Keeps (Bounded m) (Event.InRange m) fun _ => True) := by
  unfold refresh
  split
  · exact .done ⟨hc, nofun, fun _ _ => trivial⟩
  · have hstatus : c.client.status.Meets (PostsInRange m) fun _ => True :=
      (exchange_meets c.client .get none fun _ => nofun).bind fun _ _ => .done trivial
    refine hstatus.bind fun reply _ => ?_
    cases reply with
    | error e =>
      cases e with
      | overwhelmed reason => exact .done ⟨hc, nofun, nofun⟩
      | _ => exact .done ((setConnected_keeps hc false).map fun _ _ => trivial)
    | ok report =>
      have hnow := setConnected_keeps hc true
      refine .done ⟨hnow.control, fun e he => ?_, fun _ _ => trivial⟩
      rcases List.mem_append.1 he with he | he
      · exact hnow.events e he
      · rw [List.mem_singleton.1 he]
        trivial

theorem sendRounds_keeps (hc : Bounded m c) (polled : Float) (ticks : List Tick) :
    (c.sendRounds polled ticks).Meets (PostsInRange m)
      (Turn.Keeps (Bounded m) (Event.InRange m) fun _ => True) := by
  induction ticks generalizing c polled with
  | nil => exact .done ⟨hc, nofun, fun _ _ => trivial⟩
  | cons tick ticks ih =>
    unfold sendRounds
    split
    · exact .done ⟨hc, nofun, fun _ _ => trivial⟩
    · extract_lets overdue rest
      -- A round sends, and the later rounds follow, whether or not it has asked for the status.
      have hrest : ∀ poll : Turn Json, poll.Keeps (Bounded m) (Event.InRange m) (fun _ => True) →
          (rest poll).Meets (PostsInRange m)
            (Turn.Keeps (Bounded m) (Event.InRange m) fun _ => True) := by
        intro poll hpoll
        refine hpoll.andThen fun c _ hc _ => ?_
        refine (send_keeps hc).bind fun sent hsent => hsent.andThen fun c _ hc _ => ?_
        dsimp only
        split
        · exact .done ⟨hc, nofun, nofun⟩
        · exact (ih hc _).bind fun later hlater => .done (hlater.map fun _ _ => trivial)
      split
      · exact (refresh_keeps hc).bind hrest
      · exact hrest ⟨c, [], .ok .null⟩ ⟨hc, nofun, fun _ _ => trivial⟩

/-- What an operation may ask of the robot: positions are in range, and limits are passed on. -/
def Permitted (m : Int → Int) (operation : Operation) (r : Request) : Prop :=
  PostsInRange m r ∨ ∃ limits, operation = .sendLimits limits ∧ r.body = some limits

/-- A turn that leaves the maxima and the positions alone keeps them in range. -/
theorem keeps_of_same {α : Type} {t : Turn α} (hc : Bounded m c)
    (hmax : t.control.maxima = c.maxima) (hcalculated : t.control.calculated = c.calculated)
    (hsent : t.control.sent = c.sent) (hevents : t.events = []) :
    t.Keeps (Bounded m) (Event.InRange m) fun _ => True := by
  refine ⟨⟨fun id => ?_, ?_, ?_⟩, ?_, fun _ _ => trivial⟩
  · rw [← hc.maximum id, maximum, maximum, hmax]
  · rw [hcalculated]
    exact hc.calculated
  · rw [hsent]
    exact hc.sent
  · rw [hevents]
    exact nofun

theorem updateFormula_keeps (hc : Bounded m c) (servo : Servo.Reference) (formula : String) :
    (c.updateFormula servo formula).Keeps (Bounded m) (Event.InRange m) fun _ => True := by
  unfold updateFormula
  split
  · split <;> exact keeps_of_same hc rfl rfl rfl rfl
  · exact keeps_of_same hc rfl rfl rfl rfl

theorem setFormulas_keeps (hc : Bounded m c) (formulas : Table String String) :
    (c.setFormulas formulas).Keeps (Bounded m) (Event.InRange m) fun _ => True := by
  unfold setFormulas
  split <;> exact keeps_of_same hc rfl rfl rfl rfl

theorem setAddress_keeps (hc : Bounded m c) (address : String) :
    (c.setAddress address).Keeps (Bounded m) (Event.InRange m) fun _ => True := by
  have hmoved : Bounded m { c with client := { c.client with address } } :=
    ⟨hc.maximum, hc.calculated, hc.sent⟩
  exact setConnected_keeps hmoved false

theorem setInterval_keeps (hc : Bounded m c) (interval : Float) :
    (c.setInterval interval).Keeps (Bounded m) (Event.InRange m) fun _ => True := by
  unfold setInterval
  split <;> exact keeps_of_same hc rfl rfl rfl rfl

theorem start_keeps (hc : Bounded m c) :
    c.start.Keeps (Bounded m) (Event.InRange m) fun _ => True :=
  keeps_of_same hc rfl rfl rfl rfl

theorem sendLimits_keeps (hc : Bounded m c) (limits : Json) :
    (c.sendLimits limits).Meets (Permitted m (.sendLimits limits))
      (Turn.Keeps (Bounded m) (Event.InRange m) fun _ => True) := by
  unfold sendLimits
  split
  · refine (post_meets c.client limits fun _ => .inr ⟨limits, rfl, rfl⟩).bind fun reply _ => ?_
    exact .done (keeps_of_same hc rfl rfl rfl rfl)
  · exact .done (keeps_of_same hc rfl rfl rfl rfl)

/-- An operation keeps every position in range, whatever the robot answers. -/
theorem perform_keeps (hm : Moderate m) (hc : Bounded m c) (operation : Operation) :
    (c.perform operation).Meets (Permitted m operation)
      (Turn.Keeps (Bounded m) (Event.InRange m) (Answer.InRange m)) := by
  have hquiet : ∀ {r}, PostsInRange m r → Permitted m operation r := .inl
  cases operation with
  | updateFormula servo formula =>
    exact .done ((updateFormula_keeps hc servo formula).map fun _ _ => trivial)
  | setFormulas formulas => exact .done ((setFormulas_keeps hc formulas).map fun _ _ => trivial)
  | process frame => exact .done ((process_keeps hm hc frame).map fun _ h => h)
  | collect => exact .done ((collect_keeps hc).map fun _ h => h)
  | send =>
    refine ((send_keeps hc).mono (fun _ => hquiet) fun _ h => h).bind fun t ht => ?_
    exact .done (ht.map fun _ _ => trivial)
  | refresh =>
    refine ((refresh_keeps hc).mono (fun _ => hquiet) fun _ h => h).bind fun t ht => ?_
    exact .done (ht.map fun _ _ => trivial)
  | sendLimits limits =>
    exact (sendLimits_keeps hc limits).bind fun t ht => .done (ht.map fun _ _ => trivial)
  | setAddress address => exact .done ((setAddress_keeps hc address).map fun _ _ => trivial)
  | setThreshold threshold =>
    exact .done (Turn.Keeps.map (keeps_of_same hc rfl rfl rfl rfl) fun _ _ => trivial)
  | setInterval interval => exact .done ((setInterval_keeps hc interval).map fun _ _ => trivial)
  | start => exact .done ((start_keeps hc).map fun _ _ => trivial)
  | stop => exact .done (Turn.Keeps.map (keeps_of_same hc rfl rfl rfl rfl) fun _ _ => trivial)
  | sendLoop ticks =>
    refine ((sendRounds_keeps hc 0 ticks).mono (fun _ => hquiet) fun _ h => h).bind fun t ht => ?_
    exact .done (ht.map fun _ _ => trivial)

theorem moderate_maximum (h : ∀ e ∈ c.maxima.entries, 0 ≤ e.2 ∧ e.2 ≤ 2 ^ 51) :
    Moderate c.maximum := by
  intro id
  unfold maximum
  cases hget : c.maxima.get? id with
  | none => exact ⟨by decide, by decide⟩
  | some v => exact h _ (Table.mem_of_find hget)

/-- In every run of a control that starts without positions, whatever the robot answers, all
positions that are held, told, collected or posted lie between zero and the maximum of their
servo, which stays what it was. -/
theorem positions_stay_in_range (c : Control) (hcalculated : c.calculated = .empty)
    (hsent : c.sent = .empty) (hmax : ∀ e ∈ c.maxima.entries, 0 ≤ e.2 ∧ e.2 ≤ 2 ^ 51)
    (steps : List Step) (s : Step) :
    let now := c.after steps
    let next := s.run now
    (∀ id, now.maximum id = c.maximum id) ∧
      AllInRange c.maximum now.calculated ∧ AllInRange c.maximum now.sent ∧
      (∀ e ∈ next.value.events, e.InRange c.maximum) ∧
      (∀ a, next.value.result = .ok a → a.InRange c.maximum) ∧
      ∀ r, .request r ∈ next.calls → Permitted c.maximum s.operation r := by
  have hm := moderate_maximum hmax
  have hstart : Bounded c.maximum c := by
    refine ⟨fun _ => rfl, ?_, ?_⟩
    · rw [hcalculated]
      exact nofun
    · rw [hsent]
      exact nofun
  have hnow : Bounded c.maximum (c.after steps) := by
    refine after_induction hstart (fun c' s' hc' => ?_) steps
    exact ((perform_keeps hm hc' s'.operation).run s'.idle s'.outcomes).1.control
  obtain ⟨hkeeps, hcalls⟩ := (perform_keeps hm hnow s.operation).run s.idle s.outcomes
  exact ⟨hnow.maximum, hnow.calculated, hnow.sent, hkeeps.events, hkeeps.result, hcalls⟩

/-- A formula of the default control, evaluated on a hand without landmarks. -/
theorem positions_stay_in_range_default :
    ({} : Control).calculated = .empty ∧ ({} : Control).sent = .empty ∧
      (∀ e ∈ ({} : Control).maxima.entries, 0 ≤ e.2 ∧ e.2 ≤ 2 ^ 51) ∧
      AllInRange ({} : Control).maximum (({} : Control).after
        [{ operation := .updateFormula (.id 1) "7" },
          { operation := .process (some []) }]).calculated :=
  ⟨rfl, rfl, by decide,
    (positions_stay_in_range {} rfl rfl (by decide) _ { operation := .collect }).2.1⟩

end RobotHand.Control
