import RobotHand.Proofs.Control.Collecting
import RobotHand.Proofs.Control.Runs
import RobotHand.Proofs.Control.Transcripts

/-! What a sending and a poll do, case by case. -/
namespace RobotHand

namespace Outcome

/-- No answer, or one whose status does not tell success. -/
def Fails : Outcome → Prop
  | .failed _ => True
  | .answered status _ => ¬ (200 ≤ status ∧ status < 300)

instance : DecidablePred Fails := fun o =>
  o.casesOn (fun _ => .isTrue trivial)
    fun status _ => inferInstanceAs (Decidable ¬ (200 ≤ status ∧ status < 300))

/-- A success with a body that nests too deeply for its reader. -/
def Overwhelms : Outcome → Prop
  | .answered status (.overwhelming _) => 200 ≤ status ∧ status < 300
  | _ => False

instance : DecidablePred Overwhelms := fun o =>
  match o with
  | .failed _ | .answered _ (.ok _) | .answered _ (.error _) => .isFalse id
  | .answered status (.overwhelming _) => inferInstanceAs (Decidable (200 ≤ status ∧ status < 300))

/-- A body, if there is one, is read or refused, as its reader promises; it does not break down. -/
def Decodes : Outcome → Prop
  | .answered _ (.overwhelming _) => False
  | _ => True

instance : DecidablePred Decodes := fun o =>
  match o with
  | .failed _ | .answered _ (.ok _) | .answered _ (.error _) => .isTrue trivial
  | .answered _ (.overwhelming _) => .isFalse id

theorem Decodes.not_overwhelms {o : Outcome} (h : o.Decodes) : ¬ o.Overwhelms := by
  unfold Decodes at h
  unfold Overwhelms
  split
  · exact h.elim
  · exact id

/-- What an outcome means for the request that it answers. -/
def reply (method : Method) (url : String) : Outcome → Except LinkFailure Body
  | .failed reason => .error (.unreachable method url reason)
  | .answered status body =>
    if 200 ≤ status ∧ status < 300 then .ok body else .error (.refused status)

theorem reply_of_fails {o : Outcome} (h : o.Fails) (method : Method) (url : String) :
    ∃ e, o.reply method url = .error e := by
  cases o with
  | failed reason => exact ⟨_, rfl⟩
  | answered status body => exact ⟨_, if_neg h⟩

theorem reply_of_not_fails {o : Outcome} (h : ¬ o.Fails) (method : Method) (url : String) :
    ∃ body, o.reply method url = .ok body := by
  cases o with
  | failed reason => exact absurd trivial h
  | answered status body => exact ⟨_, if_pos (Decidable.not_not.1 h)⟩

theorem overwhelms_iff {o : Outcome} (url : String) :
    o.Overwhelms ↔ ∃ reason, (o.reply .get url).bind Body.read = .error (.overwhelmed reason) := by
  cases o with
  | failed reason => exact ⟨False.elim, nofun⟩
  | answered status body =>
    by_cases hstatus : 200 ≤ status ∧ status < 300
    · have hreply : (answered status body).reply .get url = .ok body := if_pos hstatus
      rw [hreply]
      cases body with
      | ok value => exact ⟨False.elim, nofun⟩
      | error reason => exact ⟨False.elim, nofun⟩
      | overwhelming reason => exact ⟨fun _ => ⟨reason, rfl⟩, fun _ => hstatus⟩
    · have hreply : (answered status body).reply .get url = .error (.refused status) :=
        if_neg hstatus
      rw [hreply]
      refine ⟨fun h => ?_, nofun⟩
      cases body with
      | overwhelming reason => exact absurd h hstatus
      | _ => exact h.elim

end Outcome

namespace Client

variable {client : Client}

/-- The servo interface of a robot whose address is known. -/
def servos (client : Client) : String := "http://" ++ client.address ++ "/api/servos"

def posting (client : Client) (body : Json) : Request :=
  ⟨.post, client.servos, some body, client.timeout⟩

def polling (client : Client) : Request := ⟨.get, client.servos, none, client.timeout⟩

theorem exchange_eq (h : client.address ≠ "") (method : Method) (body : Option Json) :
    client.exchange method body =
      .ask ⟨method, client.servos, body, client.timeout⟩ fun o =>
        .done (o.reply method client.servos) := by
  have hurl : client.url = .ok client.servos := if_neg h
  rw [exchange, hurl]
  refine congrArg (Dialogue.ask _) (funext fun o => ?_)
  cases o <;> rfl

theorem post_eq (h : client.address ≠ "") (body : Json) :
    client.post body =
      .ask (client.posting body) fun o =>
        .done ((o.reply .post client.servos).map fun _ => ()) := by
  rw [post, exchange_eq h]
  rfl

theorem status_eq (h : client.address ≠ "") :
    client.status = .ask client.polling fun o =>
      .done ((o.reply .get client.servos).bind Body.read) := by
  rw [status, exchange_eq h]
  rfl

end Client

namespace Control

def posting (c : Control) (commands : List Servo.Command) : Request :=
  c.client.posting (.array (commands.map Servo.Command.json))

theorem setConnected_control (c : Control) (connected : Bool) :
    (c.setConnected connected).control = { c with connected } := by
  unfold setConnected
  split
  · next h =>
    subst h
    rfl
  · rfl

theorem setConnected_result (c : Control) (connected : Bool) :
    (c.setConnected connected).result = .ok () := by
  unfold setConnected
  split <;> rfl

theorem ready_iff {c : Control} : c.ready ↔ c.client.address ≠ "" ∧ c.connected := by
  simp [ready]

def afterPost (c : Control) (o : Outcome) : Turn Bool :=
  match o.reply .post c.client.servos with
  | .error _ => (c.marked.setConnected false).map fun _ => false
  | .ok _ => ⟨c.marked, [.sent c.marked.sent], .ok true⟩

theorem send_of_due {c : Control} {commands : List Servo.Command} (hready : c.ready)
    (hdue : c.due = commands.map Servo.Command.entry) (hne : commands ≠ []) :
    c.send = .ask (c.posting commands) fun o => .done (c.afterPost o) := by
  have hcollect : c.collect = ⟨c.marked, [], .ok commands⟩ := collect_of_due hdue
  have haddress : c.marked.client.address ≠ "" := (ready_iff.1 hready).1
  have hempty : ¬ commands.isEmpty = true := fun h => hne (List.isEmpty_iff.1 h)
  rw [send, if_pos hready, hcollect, Turn.andThen]
  dsimp only
  rw [if_neg hempty, Client.sendPositions, Client.post_eq haddress]
  refine congrArg (Dialogue.ask _) (funext fun o => ?_)
  rw [afterPost]
  change Dialogue.bind (Dialogue.bind (.done ((o.reply .post c.client.servos).map _)) _) _ = _
  cases o.reply .post c.client.servos <;> rfl

theorem afterPost_of_fails {c : Control} {o : Outcome} (hready : c.ready) (h : o.Fails) :
    c.afterPost o = ⟨{ c.marked with connected := false }, [.connection false], .ok false⟩ := by
  obtain ⟨e, hreply⟩ := Outcome.reply_of_fails h .post c.client.servos
  have hconnected : c.marked.connected = true := (ready_iff.1 hready).2
  rw [afterPost, hreply, setConnected, hconnected]
  rfl

theorem afterPost_of_not_fails {c : Control} {o : Outcome} (h : ¬ o.Fails) :
    c.afterPost o = ⟨c.marked, [.sent c.marked.sent], .ok true⟩ := by
  obtain ⟨body, hreply⟩ := Outcome.reply_of_not_fails h .post c.client.servos
  rw [afterPost, hreply]

theorem send_run_of_due {c : Control} {commands : List Servo.Command} (hready : c.ready)
    (hdue : c.due = commands.map Servo.Command.entry) (hne : commands ≠ []) (idle : Outcome)
    (script : List Outcome) :
    c.send.run idle script =
      ⟨c.afterPost (script.headD idle), [.request (c.posting commands)], script.tail⟩ := by
  rw [send_of_due hready hdue hne, Dialogue.run_ask_done]

theorem marked_of_idle {c : Control} (h : c.due = []) : c.marked = c := by
  rw [marked, h]
  rfl

theorem send_of_idle {c : Control} (h : c.due = []) : c.send = .done ⟨c, [], .ok false⟩ := by
  have hcollect : c.collect = ⟨c.marked, [], .ok []⟩ := collect_of_due (by rw [h]; rfl)
  rw [send, hcollect, marked_of_idle h]
  split <;> rfl

/-- The calls and the turn of a sending whose request, if it makes one, has an outcome. -/
inductive Sending (c : Control) (o : Outcome) : List Call → Turn Bool → Prop
  | notReady (h : ¬ c.ready) : Sending c o [] ⟨c, [], .ok false⟩
  | invalid {complaints} (hready : c.ready) (h : ∃ e ∈ c.due, e.1 < 1) :
      Sending c o [] ⟨c, [], .error (.invalidCommand complaints)⟩
  | idle (hready : c.ready) (h : c.due = []) : Sending c o [] ⟨c, [], .ok false⟩
  | posted {commands} (hready : c.ready) (hdue : c.due = commands.map Servo.Command.entry)
      (hne : commands ≠ []) (h : ¬ o.Fails) :
      Sending c o [.request (c.posting commands)] ⟨c.marked, [.sent c.marked.sent], .ok true⟩
  | failed {commands} (hready : c.ready) (hdue : c.due = commands.map Servo.Command.entry)
      (hne : commands ≠ []) (h : o.Fails) :
      Sending c o [.request (c.posting commands)]
        ⟨{ c.marked with connected := false }, [.connection false], .ok false⟩

theorem send_run (c : Control) (idle : Outcome) (script : List Outcome) :
    ∃ calls t rest, c.send.run idle script = ⟨t, calls, rest⟩ ∧
      Sending c (script.headD idle) calls t := by
  by_cases hready : c.ready
  · rcases c.collect_cases with ⟨complaints, hinvalid, h⟩ | ⟨commands, hcommands, h⟩
    · rw [send, if_pos hready, h]
      exact ⟨_, _, _, rfl, .invalid hready hinvalid⟩
    · by_cases hne : commands = []
      · subst hne
        have hdue : c.due = [] := hcommands.symm
        rw [send_of_idle hdue]
        exact ⟨_, _, _, rfl, .idle hready hdue⟩
      · rw [send_run_of_due hready hcommands.symm hne]
        refine ⟨_, _, _, rfl, ?_⟩
        by_cases hfails : (script.headD idle).Fails
        · rw [afterPost_of_fails hready hfails]
          exact .failed hready hcommands.symm hne hfails
        · rw [afterPost_of_not_fails hfails]
          exact .posted hready hcommands.symm hne hfails
  · rw [send, if_neg hready]
    exact ⟨_, _, _, rfl, .notReady hready⟩

def afterPoll (c : Control) (o : Outcome) : Turn Json :=
  match (o.reply .get c.client.servos).bind Body.read with
  | .error (.overwhelmed reason) => ⟨c, [], .error (.link (.overwhelmed reason))⟩
  | .error _ => (c.setConnected false).map fun _ => .null
  | .ok report =>
    ⟨(c.setConnected true).control, (c.setConnected true).events ++ [.status report], .ok report⟩

theorem refresh_eq {c : Control} (h : c.client.address ≠ "") :
    c.refresh = .ask c.client.polling fun o => .done (c.afterPoll o) := by
  rw [refresh, if_neg h, Client.status_eq h]
  refine congrArg (Dialogue.ask _) (funext fun o => ?_)
  rw [afterPoll]
  change Dialogue.bind (.done ((o.reply .get c.client.servos).bind _)) _ = _
  cases (o.reply .get c.client.servos).bind Body.read with
  | error e => cases e <;> rfl
  | ok report => rfl

/-- A poll whose reader breaks down fails and changes nothing. -/
theorem afterPoll_of_overwhelms {o : Outcome} (h : o.Overwhelms) (c : Control) :
    ∃ reason, c.afterPoll o = ⟨c, [], .error (.link (.overwhelmed reason))⟩ := by
  obtain ⟨reason, hreply⟩ := (o.overwhelms_iff c.client.servos).1 h
  refine ⟨reason, ?_⟩
  rw [afterPoll, hreply]

/-- A poll changes nothing but the note on the connection. -/
theorem afterPoll_control (c : Control) (o : Outcome) :
    ∃ connected, (c.afterPoll o).control = { c with connected } := by
  unfold afterPoll
  split
  · exact ⟨c.connected, rfl⟩
  · exact ⟨false, c.setConnected_control false⟩
  · exact ⟨true, c.setConnected_control true⟩

end Control
end RobotHand
