import RobotHand.Proofs.Control.Posting
import RobotHand.Proofs.Outcomes

/-! When a control counts as connected, told from everything that it has asked for. -/
namespace RobotHand

/-- Whether an outcome is a success for a request; the answer to a poll must be readable. -/
def Outcome.Serves (method : Method) : Outcome → Prop
  | .failed _ => False
  | .answered status body =>
    (200 ≤ status ∧ status < 300) ∧ (method = .get → ∃ report, body = .ok report)

theorem Outcome.serves_post_iff {o : Outcome} : o.Serves .post ↔ ¬ o.Fails := by
  cases o with
  | failed reason => exact ⟨False.elim, fun h => h trivial⟩
  | answered status body =>
    refine ⟨fun h => Decidable.not_not.2 h.1, fun h => ⟨Decidable.not_not.1 h, fun hget => ?_⟩⟩
    cases hget

/-- A success that a status can be read from. -/
def Outcome.Reports (o : Outcome) (report : Json) : Prop :=
  ∃ status, (200 ≤ status ∧ status < 300) ∧ o = .answered status (.ok report)

theorem Outcome.Reports.unique {o : Outcome} {report report' : Json} (h : o.Reports report)
    (h' : o.Reports report') : report = report' := by
  obtain ⟨status, -, rfl⟩ := h
  obtain ⟨status', -, hsame⟩ := h'
  cases hsame
  rfl

theorem Outcome.serves_get_iff {o : Outcome} : o.Serves .get ↔ ∃ report, o.Reports report := by
  constructor
  · cases o with
    | failed reason => exact False.elim
    | answered status body =>
      rintro ⟨hstatus, hread⟩
      obtain ⟨report, rfl⟩ := hread rfl
      exact ⟨report, status, hstatus, rfl⟩
  · rintro ⟨report, status, hstatus, rfl⟩
    exact ⟨hstatus, fun _ => ⟨report, rfl⟩⟩

theorem Outcome.reports_iff {o : Outcome} {report : Json} (url : String) :
    o.Reports report ↔ (o.reply .get url).bind Body.read = .ok report := by
  constructor
  · rintro ⟨status, hstatus, rfl⟩
    have hreply : (Outcome.answered status (.ok report)).reply .get url = .ok (.ok report) :=
      if_pos hstatus
    rw [hreply]
    rfl
  · intro h
    obtain ⟨body, hreply, hbody⟩ := bind_eq_ok_iff.1 h
    cases o with
    | failed reason => cases hreply
    | answered status body' =>
      by_cases hstatus : 200 ≤ status ∧ status < 300
      · cases (if_pos hstatus).symm.trans hreply
        cases body <;> cases hbody
        exact ⟨status, hstatus, rfl⟩
      · cases (if_neg hstatus).symm.trans hreply

namespace Control

/-- What bears on the connection of a control: it is pointed at an address, or it polls, sends
positions or sends limits, with an outcome. A poll may also break off, because the reader of the
answer breaks down. -/
inductive Contact
  | pointed (address : String)
  | exchanged (r : Request) (o : Outcome)
  | broken (r : Request)
  | limited (r : Request) (o : Outcome)

namespace Contact

/-- What becomes of the polls and sendings of positions since a control was last pointed at an
address. -/
def extend (recent : List (Request × Outcome)) : Contact → List (Request × Outcome)
  | pointed _ => []
  | exchanged r o => recent ++ [(r, o)]
  | broken _ | limited _ _ => recent

def recent (history : List Contact) : List (Request × Outcome) := history.foldl extend []

def redirect (address : String) : Contact → String
  | pointed address => address
  | _ => address

/-- Where a control points that pointed at an address in the beginning. -/
def target (address : String) (history : List Contact) : String := history.foldl redirect address

/-- Since the control was last pointed at an address it has polled, and its last poll or sending of
positions succeeded. -/
def Reached (history : List Contact) : Prop :=
  (∃ e ∈ recent history, e.1.method = .get) ∧
    ∃ e, (recent history).getLast? = some e ∧ e.2.Serves e.1.method

/-- A request goes to the present address, which is not empty, and posts only to a robot that is
reached. -/
def Proper (address : String) (history : List Contact) : Contact → Prop
  | pointed _ => True
  | exchanged r _ | broken r | limited r _ =>
    target address history ≠ "" ∧
      r.url = "http://" ++ target address history ++ "/api/servos" ∧
      (r.method = .post → Reached history)

def request? : Contact → Option Request
  | pointed _ => none
  | exchanged r _ | broken r | limited r _ => some r

/-- A poll or a sending with its outcome. -/
def ofExchange (e : Request × Outcome) : Contact :=
  if e.1.method = .get ∧ e.2.Overwhelms then broken e.1 else exchanged e.1 e.2

variable {history : List Contact} {contact : Contact} {address : String} {r : Request}
  {o : Outcome}

theorem recent_snoc : recent (history ++ [contact]) = extend (recent history) contact :=
  List.foldl_concat _ _ _ _

theorem target_snoc :
    target address (history ++ [contact]) = redirect (target address history) contact :=
  List.foldl_concat _ _ _ _

theorem not_reached_nil : ¬ Reached [] := by
  rintro ⟨⟨e, he, -⟩, -⟩
  cases he

theorem not_reached_pointed : ¬ Reached (history ++ [pointed address]) := by
  rintro ⟨⟨e, he, -⟩, -⟩
  rw [recent_snoc] at he
  cases he

theorem reached_limited : Reached (history ++ [limited r o]) ↔ Reached history := by
  rw [Reached, recent_snoc]
  exact Iff.rfl

theorem reached_broken : Reached (history ++ [broken r]) ↔ Reached history := by
  rw [Reached, recent_snoc]
  exact Iff.rfl

theorem request_ofExchange (e : Request × Outcome) : (ofExchange e).request? = some e.1 := by
  unfold ofExchange
  split <;> rfl

theorem ofExchange_ne_broken {e : Request × Outcome} (h : e.2.Decodes) :
    ofExchange e ≠ broken r := by
  rw [ofExchange, if_neg fun hbroken => h.not_overwhelms hbroken.2]
  exact nofun

/-- The last exchange decides, unless there was no poll. -/
theorem reached_exchanged :
    Reached (history ++ [exchanged r o]) ↔
      (r.method = .get ∨ ∃ e ∈ recent history, e.1.method = .get) ∧ o.Serves r.method := by
  have hrecent : recent (history ++ [exchanged r o]) = recent history ++ [(r, o)] := recent_snoc
  rw [Reached, hrecent, List.getLast?_concat]
  simp only [List.mem_append, List.mem_singleton, Option.some.injEq, or_and_right, exists_or,
    exists_eq_left, exists_eq_left']
  rw [or_comm]

end Contact

open Contact

variable {start now now' : Control} {history : List Contact} {contact : Contact} {s : Step}

/-- The history of a control since the start tells where it points and whether it is connected, and
all requests of it were proper. -/
structure Tracks (start : Control) (history : List Contact) (now : Control) : Prop where
  address : now.client.address = target start.client.address history
  connected : now.connected ↔ Reached history
  known : now.connected → now.client.address ≠ ""
  proper : ∀ before contact, before ++ [contact] <+: history →
    contact.Proper start.client.address before

theorem Tracks.refl (hfresh : start.connected = false) : Tracks start [] start where
  address := rfl
  connected := ⟨fun h => absurd (hfresh.symm.trans h) Bool.false_ne_true,
    fun h => absurd h not_reached_nil⟩
  known h := absurd (hfresh.symm.trans h) Bool.false_ne_true
  proper before contact h := absurd (List.prefix_nil.1 h) (List.concat_ne_nil contact before)

/-- A history grows by a proper contact. -/
theorem Tracks.snoc (h : Tracks start history now)
    (hproper : contact.Proper start.client.address history)
    (haddress : now'.client.address = redirect now.client.address contact)
    (hconnected : now'.connected ↔ Reached (history ++ [contact]))
    (hknown : now'.connected → now'.client.address ≠ "") :
    Tracks start (history ++ [contact]) now' where
  address := by rw [haddress, h.address, target_snoc]
  connected := hconnected
  known := hknown
  proper before contact' hpart := by
    rcases List.prefix_concat_iff.1 hpart with heq | hpart
    · obtain ⟨rfl, hsame⟩ := List.append_inj' heq rfl
      cases hsame
      exact hproper
    · exact h.proper before contact' hpart

theorem Tracks.keep {operation : Operation} (h : Tracks start history now)
    (hchanges : operation.Changes now now')
    (haddress : ∀ address, operation ≠ .setAddress address) (hsend : operation ≠ .send)
    (hrefresh : operation ≠ .refresh) (hloop : ∀ ticks, operation ≠ .sendLoop ticks) :
    Tracks start history now' := by
  obtain ⟨hclient, hconnected⟩ := hchanges.connection_eq haddress hsend hrefresh hloop
  constructor
  · rw [hclient]
    exact h.address
  · rw [hconnected]
    exact h.connected
  · rw [hclient, hconnected]
    exact h.known
  · exact h.proper

/-- The connection after a poll or a sending is noted from its outcome. -/
theorem Tracks.exchanged {r : Request} {o : Outcome} (h : Tracks start history now)
    (hurl : r.url = now.client.servos)
    (hmethod : r.method = .get ∨ r.method = .post ∧ now.connected)
    (haddress : now.client.address ≠ "") (hclient : now'.client = now.client)
    (hconnected : now'.connected ↔ o.Serves r.method) :
    Tracks start (history ++ [.exchanged r o]) now' := by
  have hreached : r.method = .post → Reached history := by
    rintro hpost
    rcases hmethod with hget | ⟨-, hnow⟩
    · cases hget.symm.trans hpost
    · exact h.connected.1 hnow
  refine h.snoc ⟨h.address ▸ haddress, ?_, hreached⟩ ?_ ?_ fun _ => ?_
  · rw [hurl, Client.servos, h.address]
  · rw [hclient]
    rfl
  · rw [hconnected, reached_exchanged]
    refine ⟨fun hserves => ⟨?_, hserves⟩, And.right⟩
    rcases hmethod with hget | ⟨hpost, -⟩
    · exact .inl hget
    · exact .inr (hreached hpost).1
  · rw [hclient]
    exact haddress

/-- A poll that breaks off leaves the connection as it was. -/
theorem Tracks.broken {r : Request} (h : Tracks start history now)
    (hurl : r.url = now.client.servos)
    (hmethod : r.method = .get) (haddress : now.client.address ≠ "") :
    Tracks start (history ++ [.broken r]) now := by
  refine h.snoc ⟨h.address ▸ haddress, ?_, fun hpost => ?_⟩ rfl ?_ h.known
  · rw [hurl, Client.servos, h.address]
  · cases hmethod.symm.trans hpost
  · rw [reached_broken]
    exact h.connected

theorem afterPoll_of_reports {o : Outcome} {report : Json} (h : o.Reports report) (c : Control) :
    (c.afterPoll o).result = .ok report ∧ (c.afterPoll o).control.connected = true := by
  rw [afterPoll, (o.reports_iff c.client.servos).1 h]
  exact ⟨rfl, congrArg connected (c.setConnected_control true)⟩

theorem afterPoll_of_not_serves {o : Outcome} (h : ¬ o.Serves .get) (hread : ¬ o.Overwhelms)
    (c : Control) :
    (c.afterPoll o).result = .ok .null ∧ (c.afterPoll o).control.connected = false := by
  rw [afterPoll]
  split
  · next reason hreason => exact absurd ((o.overwhelms_iff _).2 ⟨reason, hreason⟩) hread
  · exact ⟨congrArg (Except.map fun _ => Json.null) (c.setConnected_result false),
      congrArg connected (c.setConnected_control false)⟩
  · next report hreport =>
    exact absurd (o.serves_get_iff.2 ⟨report, (o.reports_iff _).2 hreport⟩) h

theorem connected_afterPoll (c : Control) {o : Outcome} (hread : ¬ o.Overwhelms) :
    (c.afterPoll o).control.connected ↔ o.Serves .get := by
  by_cases h : o.Serves .get
  · obtain ⟨report, hreport⟩ := o.serves_get_iff.1 h
    exact ⟨fun _ => h, fun _ => (afterPoll_of_reports hreport c).2⟩
  · rw [(afterPoll_of_not_serves h hread c).2]
    exact ⟨fun h => absurd h Bool.false_ne_true, fun hserves => absurd hserves h⟩

theorem connected_afterPost {c : Control} (hready : c.ready) (o : Outcome) :
    (c.afterPost o).control.connected ↔ o.Serves .post := by
  rw [Outcome.serves_post_iff]
  by_cases hfails : o.Fails
  · rw [afterPost_of_fails hready hfails]
    exact ⟨fun h => absurd h Bool.false_ne_true, fun h => absurd hfails h⟩
  · rw [afterPost_of_not_fails hfails]
    exact ⟨fun _ => hfails, fun _ => (ready_iff.1 hready).2⟩

theorem client_afterPost (c : Control) (o : Outcome) :
    (c.afterPost o).control.client = c.client := by
  unfold afterPost
  split
  · change (c.marked.setConnected false).control.client = c.client
    rw [setConnected_control]
    rfl
  · rfl

/-- A sending makes no request and changes nothing, or posts. -/
theorem send_cases (c : Control) :
    (∃ result, c.send = .done ⟨c, [], result⟩) ∨
      ∃ commands, c.ready ∧ c.send = .ask (c.posting commands) fun o => .done (c.afterPost o) := by
  by_cases hready : c.ready
  · rcases c.collect_cases with ⟨complaints, -, h⟩ | ⟨commands, hcommands, -⟩
    · rw [send, if_pos hready, h]
      exact .inl ⟨_, rfl⟩
    · by_cases hne : commands = []
      · subst hne
        exact .inl ⟨_, send_of_idle hcommands.symm⟩
      · exact .inr ⟨commands, hready, send_of_due hready hcommands.symm hne⟩
  · rw [send, if_neg hready]
    exact .inl ⟨_, rfl⟩

def withExchanges (history : List Contact) (log : List (Request × Outcome)) : List Contact :=
  history ++ log.map .ofExchange

theorem withExchanges_snoc (history : List Contact) (log : List (Request × Outcome)) (r : Request)
    (o : Outcome) :
    withExchanges history (log ++ [(r, o)]) =
      withExchanges history log ++ [.ofExchange (r, o)] := by
  rw [withExchanges, List.map_append, ← List.append_assoc]
  rfl

variable {log : List (Request × Outcome)}

theorem traces_refresh (h : Tracks start (withExchanges history log) now) :
    Traces (fun log now => Tracks start (withExchanges history log) now) log now.refresh := by
  by_cases haddress : now.client.address = ""
  · rw [refresh, if_pos haddress]
    exact .done h
  · rw [refresh_eq haddress]
    apply Traces.ask
    intro o
    rw [withExchanges_snoc, ofExchange]
    by_cases hread : o.Overwhelms
    · obtain ⟨reason, hpoll⟩ := afterPoll_of_overwhelms hread now
      rw [hpoll, if_pos ⟨rfl, hread⟩]
      exact h.broken rfl rfl haddress
    · obtain ⟨connected, hcontrol⟩ := now.afterPoll_control o
      rw [if_neg fun hbroken => hread hbroken.2]
      refine h.exchanged rfl (.inl rfl) haddress ?_ (now.connected_afterPoll hread)
      rw [hcontrol]

theorem traces_send (h : Tracks start (withExchanges history log) now) :
    Traces (fun log now => Tracks start (withExchanges history log) now) log now.send := by
  rcases now.send_cases with ⟨result, hsend⟩ | ⟨commands, hready, hsend⟩
  · rw [hsend]
    exact .done h
  · obtain ⟨haddress, hconnected⟩ := ready_iff.1 hready
    rw [hsend]
    apply Traces.ask
    intro o
    rw [withExchanges_snoc, ofExchange, if_neg fun hbroken => nomatch hbroken.1]
    exact h.exchanged rfl (.inr ⟨rfl, hconnected⟩) haddress (now.client_afterPost o)
      (connected_afterPost hready o)

theorem sendLimits_eq {c : Control} (hready : c.ready) (limits : Json) :
    c.sendLimits limits = .ask (c.client.posting limits) fun o =>
      .done ⟨c, [], ((o.reply .post c.client.servos).map fun _ => ()).mapError .link⟩ := by
  rw [sendLimits, if_pos hready, Client.sendLimits, Client.post_eq (ready_iff.1 hready).1]
  rfl

def Step.contacts (s : Step) (now : Control) : List Contact :=
  let transcript := (now.perform s.operation).transcript s.idle s.outcomes
  match s.operation with
  | .setAddress address => [.pointed address]
  | .sendLimits _ => transcript.map fun e => .limited e.1 e.2
  | _ => transcript.map .ofExchange

def contactsOf (c : Control) (steps : List Step) : List Contact := recorded Step.contacts c steps

theorem transcript_map {α β : Type} (d : Dialogue (Turn α)) (f : α → β) (idle : Outcome)
    (script : List Outcome) :
    (d >>= fun t => pure (t.map f)).transcript idle script = d.transcript idle script := by
  refine (Dialogue.transcript_bind d (fun t => .done (t.map f)) idle script).trans ?_
  exact List.append_nil _

theorem Tracks.sendLimits (h : Tracks start history now) (limits : Json) (idle : Outcome)
    (script : List Outcome) :
    let s : Step := ⟨.sendLimits limits, script, idle⟩
    Tracks start (history ++ s.contacts now) (s.run now).value.control := by
  intro s
  have hcontrol : (s.run now).value.control = now :=
    (congrArg Turn.control (value_run_map (now.sendLimits limits) _ idle script)).trans
      (sendLimits_control limits idle script)
  have htranscript := transcript_map (now.sendLimits limits) (fun _ => Answer.nothing) idle script
  have hcontacts : s.contacts now = ((now.sendLimits limits).transcript idle script).map
      fun e => .limited e.1 e.2 :=
    congrArg (List.map fun e => Contact.limited (Prod.fst e) (Prod.snd e)) htranscript
  rw [hcontrol, hcontacts]
  by_cases hready : now.ready
  · obtain ⟨haddress, hconnected⟩ := ready_iff.1 hready
    have hreached := h.connected.1 hconnected
    rw [sendLimits_eq hready, Dialogue.transcript_ask_done]
    refine h.snoc ⟨h.address ▸ haddress, ?_, fun _ => hreached⟩ rfl ?_ h.known
    · rw [← h.address]
      rfl
    · rw [reached_limited]
      exact h.connected
  · rw [Control.sendLimits, if_neg hready]
    change Tracks start (history ++ []) now
    rw [List.append_nil]
    exact h

theorem Tracks.step (h : Tracks start history now) :
    Tracks start (history ++ s.contacts now) (s.run now).value.control := by
  have hbefore : Tracks start (withExchanges history []) now := by
    rw [withExchanges, List.map_nil, List.append_nil]
    exact h
  have hdone : ∀ {α : Type} (f : α → Answer) (log : List (Request × Outcome)) (t : Turn α),
      Tracks start (withExchanges history log) t.control →
        Traces (fun log now => Tracks start (withExchanges history log) now) log
          (.done (t.map f)) :=
    fun f log t ht => .done ht
  obtain ⟨operation, script, idle⟩ := s
  cases operation with
  | send => exact ((traces_send hbefore).bind (hdone .flag)) idle script
  | refresh => exact ((traces_refresh hbefore).bind (hdone .status)) idle script
  | sendLoop ticks =>
    have hloop := Traces.sendRounds (fun _ _ => traces_refresh) (fun _ _ => traces_send) ticks 0
      hbefore
    exact (hloop.bind (hdone .waits)) idle script
  | setAddress address =>
    have hcontrol : ((now.setAddress address).map fun _ => Answer.nothing).control = _ :=
      setConnected_control _ false
    change Tracks start (history ++ [.pointed address]) ((now.setAddress address).map _).control
    rw [hcontrol]
    refine h.snoc trivial rfl ?_ fun hconnected => absurd hconnected Bool.false_ne_true
    exact ⟨fun hconnected => absurd hconnected Bool.false_ne_true,
      fun hreached => absurd hreached not_reached_pointed⟩
  | sendLimits limits => exact h.sendLimits limits idle script
  | _ =>
    change Tracks start (history ++ []) _
    rw [List.append_nil]
    exact h.keep (run_changes now _) nofun nofun nofun nofun

theorem tracks_after (hfresh : start.connected = false) (steps : List Step) :
    Tracks start (start.contactsOf steps) (start.after steps) := by
  induction steps using List.reverseRecOn with
  | nil => exact .refl hfresh
  | append_singleton steps s ih =>
    rw [contactsOf, recorded_snoc, after_snoc]
    exact ih.step

theorem filterMap_request_contacts (s : Step) (now : Control) :
    (s.contacts now).filterMap request? = requests (s.run now).calls := by
  have hexchanged : ∀ log : List (Request × Outcome),
      (log.map Contact.ofExchange).filterMap request? = log.map Prod.fst := by
    intro log
    have hpart : request? ∘ Contact.ofExchange = some ∘ Prod.fst := funext request_ofExchange
    rw [List.filterMap_map, hpart]
    exact congrFun (List.filterMap_eq_map (f := Prod.fst)) log
  have hlimited : ∀ log : List (Request × Outcome),
      (log.map fun e => Contact.limited e.1 e.2).filterMap request? = log.map Prod.fst := by
    intro log
    rw [List.filterMap_map]
    exact congrFun (List.filterMap_eq_map (f := Prod.fst)) log
  have hmap := (now.perform s.operation).map_fst_transcript s.idle s.outcomes
  rw [Step.run, ← hmap, Step.contacts]
  split
  · next address hoperation =>
    rw [hoperation]
    rfl
  · exact hlimited _
  · exact hexchanged _

/-- No request of a run is left out of its history. -/
theorem filterMap_request_contactsOf (c : Control) (steps : List Step) :
    (c.contactsOf steps).filterMap request? =
      recorded (fun s now => requests (s.run now).calls) c steps := by
  induction steps generalizing c with
  | nil => rfl
  | cons s steps ih =>
    rw [contactsOf, recorded, recorded, List.filterMap_append, filterMap_request_contacts]
    exact congrArg (_ ++ ·) (ih _)

theorem not_ready_of_not_connected {c : Control} (h : c.connected = false) : ¬ c.ready := by
  intro hready
  cases h.symm.trans (ready_iff.1 hready).2

theorem send_of_not_connected {c : Control} (h : c.connected = false) (idle : Outcome)
    (script : List Outcome) :
    Step.run ⟨.send, script, idle⟩ c = ⟨⟨c, [], .ok (.flag false)⟩, [], script⟩ := by
  rw [Step.run_send, send, if_neg (not_ready_of_not_connected h)]
  rfl

theorem sendLimits_of_not_connected {c : Control} (h : c.connected = false) (limits : Json)
    (idle : Outcome) (script : List Outcome) :
    Step.run ⟨.sendLimits limits, script, idle⟩ c =
      ⟨⟨c, [], .error .notConnected⟩, [], script⟩ := by
  have hrun : Step.run ⟨.sendLimits limits, script, idle⟩ c = _ :=
    run_map (c.sendLimits limits) (fun _ => Answer.nothing) idle script
  rw [hrun, sendLimits, if_neg (not_ready_of_not_connected h)]
  rfl

/-- All outcomes of a step are answers with bodies that are read or refused, or no answers. -/
def Step.Decodes (s : Step) : Prop := s.idle.Decodes ∧ ∀ o ∈ s.outcomes, o.Decodes

theorem Step.Decodes.of_mem_transcript (h : s.Decodes) {α : Type} {d : Dialogue α}
    {e : Request × Outcome} (he : e ∈ d.transcript s.idle s.outcomes) : e.2.Decodes := by
  rcases Dialogue.outcome_of_mem_transcript he with hidle | hscript
  · rw [hidle]
    exact h.1
  · exact h.2 _ hscript

/-- While no reader breaks down, no poll breaks off. -/
theorem broken_not_mem_contacts (h : s.Decodes) (now : Control) (r : Request) :
    .broken r ∉ s.contacts now := by
  unfold Step.contacts
  split
  · simp
  · simp
  · intro hmem
    obtain ⟨e, he, hbroken⟩ := List.mem_map.1 hmem
    exact ofExchange_ne_broken (h.of_mem_transcript he) hbroken

theorem mem_recorded {α : Type} {record : Step → Control → List α} {a : α} {c : Control}
    {steps : List Step} (h : a ∈ recorded record c steps) :
    ∃ s ∈ steps, ∃ now, a ∈ record s now := by
  induction steps generalizing c with
  | nil => cases h
  | cons s steps ih =>
    rcases List.mem_append.1 h with hfirst | hlater
    · exact ⟨s, List.mem_cons_self, c, hfirst⟩
    · obtain ⟨s', hs', now, hnow⟩ := ih hlater
      exact ⟨s', List.mem_cons_of_mem s hs', now, hnow⟩

end Control
end RobotHand
