import RobotHand.Link.Operation
import RobotHand.Proofs.Control.Connection

/-! What a client asks for, call by call. A call with an address makes one request, whose outcome
decides the result; a call without one makes none. -/
namespace RobotHand

/-- What speaks against the connection to a robot, as opposed to a missing address and to a reader
that breaks down. -/
def LinkFailure.IsConnection : LinkFailure → Prop
  | .unreachable .. | .refused _ | .unreadable _ => True
  | .noAddress | .overwhelmed _ => False

/-- What a request leads to, by its outcome. -/
inductive Outcome.Yields (method : Method) (url : String) :
    Outcome → Except LinkFailure (Option Json) → Prop
  | unreachable {reason} :
      Yields method url (.failed reason) (.error (.unreachable method url reason))
  | refused {status body} (h : ¬ (200 ≤ status ∧ status < 300)) :
      Yields method url (.answered status body) (.error (.refused status))
  | unreadable {status reason} (hget : method = .get) (h : 200 ≤ status ∧ status < 300) :
      Yields method url (.answered status (.error reason)) (.error (.unreadable reason))
  | overwhelmed {status reason} (hget : method = .get) (h : 200 ≤ status ∧ status < 300) :
      Yields method url (.answered status (.overwhelming reason)) (.error (.overwhelmed reason))
  | reported {status report} (hget : method = .get) (h : 200 ≤ status ∧ status < 300) :
      Yields method url (.answered status (.ok report)) (.ok (some report))
  | taken {status body} (hpost : method = .post) (h : 200 ≤ status ∧ status < 300) :
      Yields method url (.answered status body) (.ok none)

namespace Outcome

variable {method : Method} {url : String} {o : Outcome} {result : Except LinkFailure (Option Json)}

theorem Yields.returns_iff (h : o.Yields method url result) :
    (∃ a, result = .ok a) ↔ o.Serves method := by
  cases h with
  | unreachable => exact ⟨nofun, False.elim⟩
  | refused h => exact ⟨nofun, fun hserves => absurd hserves.1 h⟩
  | unreadable hget h | overwhelmed hget h =>
    refine ⟨nofun, fun hserves => ?_⟩
    obtain ⟨report, hreport⟩ := hserves.2 hget
    cases hreport
  | reported hget h => exact ⟨fun _ => ⟨h, fun _ => ⟨_, rfl⟩⟩, fun _ => ⟨_, rfl⟩⟩
  | taken hpost h =>
    subst hpost
    exact ⟨fun _ => ⟨h, nofun⟩, fun _ => ⟨_, rfl⟩⟩

theorem Yields.isConnection (h : o.Yields method url result)
    (hread : ¬ (method = .get ∧ o.Overwhelms))
    {failure : LinkFailure} (hfailure : result = .error failure) : failure.IsConnection := by
  cases h with
  | overwhelmed hget h => exact absurd ⟨hget, h⟩ hread
  | reported | taken => cases hfailure
  | unreachable | refused | unreadable =>
    cases hfailure
    trivial

theorem yields_post (o : Outcome) (url : String) :
    o.Yields .post url (((o.reply .post url).map fun _ => ()).map fun _ => none) := by
  cases o with
  | failed reason => exact .unreachable
  | answered status body =>
    by_cases h : 200 ≤ status ∧ status < 300
    · rw [reply, if_pos h]
      exact .taken rfl h
    · rw [reply, if_neg h]
      exact .refused h

theorem yields_get (o : Outcome) (url : String) :
    o.Yields .get url (((o.reply .get url).bind Body.read).map some) := by
  cases o with
  | failed reason => exact .unreachable
  | answered status body =>
    by_cases h : 200 ≤ status ∧ status < 300
    · rw [reply, if_pos h]
      cases body with
      | error reason => exact .unreadable rfl h
      | overwhelming reason => exact .overwhelmed rfl h
      | ok report => exact .reported rfl h
    · rw [reply, if_neg h]
      exact .refused h

end Outcome

namespace Client

variable {c : Client} {operation : Operation} {method : Method}

namespace Operation

def method? : Operation → Option Method
  | setAddress _ => none
  | sendPositions _ | sendLimits _ => some .post
  | status => some .get

/-- The document that an operation posts: limits as they are, and positions in their order, each
with its servo. -/
def body? : Operation → Option Json
  | setAddress _ | status => none
  | sendPositions commands =>
    some (.array (commands.map fun command =>
      .object [("id", .int command.id), ("position", .int command.position)]))
  | sendLimits limits => some limits

def redirect (address : String) : Operation → String
  | setAddress address => address
  | _ => address

def target (address : String) (operations : List Operation) : String :=
  operations.foldl redirect address

end Operation

open Operation

theorem exchange_of_no_address (h : c.address = "") (method : Method) (body : Option Json) :
    c.exchange method body = .done (.error .noAddress) := by
  have hurl : c.url = .error .noAddress := if_pos h
  rw [exchange, hurl]

theorem perform_of_no_address (h : c.address = "") (hcall : operation.method? = some method) :
    c.perform operation = .done (c, .error .noAddress) := by
  cases operation with
  | setAddress address => cases hcall
  | sendPositions commands | sendLimits limits | status =>
    simp only [perform, sendPositions, sendLimits, post, status, exchange_of_no_address h]
    rfl

/-- A call with an address is one request, whose outcome decides the result. -/
theorem perform_of_address (h : c.address ≠ "") (hcall : operation.method? = some method) :
    ∃ result : Outcome → Except LinkFailure (Option Json),
      (∀ o : Outcome, o.Yields method c.servos (result o)) ∧
        c.perform operation = .ask ⟨method, c.servos, operation.body?, c.timeout⟩ fun o =>
          .done (c, result o) := by
  cases operation with
  | setAddress address => cases hcall
  | sendPositions commands | sendLimits limits =>
    cases hcall
    refine ⟨_, fun o => Outcome.yields_post o c.servos, ?_⟩
    simp only [perform, sendPositions, sendLimits, post_eq h]
    rfl
  | status =>
    cases hcall
    refine ⟨_, fun o => Outcome.yields_get o c.servos, ?_⟩
    simp only [perform, status_eq h]
    rfl

/-- An operation of a client that points at an address: an assignment, a call that fails for want of
an address, or a call that makes a request with an outcome. -/
inductive Entry.Faithful (address : String) (timeout : Float) (o : Outcome) : Entry → Prop
  | assigned {next} : Faithful address timeout o ⟨.setAddress next, [], .ok none⟩
  | unaddressed {call : Operation} {m : Method} (hcall : call.method? = some m)
      (h : address = "") : Faithful address timeout o ⟨call, [], .error .noAddress⟩
  | asked {call : Operation} {m : Method} {result} (hcall : call.method? = some m)
      (h : address ≠ "") (hresult : o.Yields m ("http://" ++ address ++ "/api/servos") result) :
      Faithful address timeout o
        ⟨call, [.request ⟨m, "http://" ++ address ++ "/api/servos", call.body?, timeout⟩], result⟩

theorem run_perform (c : Client) (operation : Operation) (idle : Outcome) (script : List Outcome) :
    let run := (c.perform operation).run idle script
    Entry.Faithful c.address c.timeout (script.headD idle) ⟨operation, run.calls, run.value.2⟩ ∧
      run.value.1 = { c with address := redirect c.address operation } ∧
      run.rest = script.drop run.calls.length := by
  cases hcall : operation.method? with
  | none =>
    cases operation with
    | setAddress next => exact ⟨.assigned, rfl, rfl⟩
    | sendPositions | status | sendLimits => cases hcall
  | some method =>
    have hsame : redirect c.address operation = c.address := by
      cases operation with
      | setAddress next => cases hcall
      | sendPositions | status | sendLimits => rfl
    rw [hsame]
    by_cases h : c.address = ""
    · rw [perform_of_no_address h hcall]
      exact ⟨.unaddressed hcall h, rfl, rfl⟩
    · obtain ⟨result, hresult, hperform⟩ := perform_of_address h hcall
      rw [hperform, Dialogue.run_ask_done]
      exact ⟨.asked hcall h (hresult _), rfl, List.drop_one.symm⟩

theorem map_operation_session (c : Client) (idle : Outcome) (operations : List Operation)
    (script : List Outcome) :
    (c.session idle operations script).map Entry.operation = operations := by
  induction operations generalizing c script with
  | nil => rfl
  | cons operation operations ih => exact congrArg (operation :: ·) (ih _ _)

/-- Every operation takes place at the address that was assigned last, and its request takes the
first outcome that none before has taken. -/
theorem faithful_session {idle : Outcome} {operations : List Operation} {script : List Outcome}
    {before after : List Entry} {e : Entry}
    (h : c.session idle operations script = before ++ e :: after) :
    e.Faithful (target c.address (before.map Entry.operation)) c.timeout
      ((script.drop (before.flatMap Entry.calls).length).headD idle) := by
  induction operations generalizing c script before with
  | nil => cases before <;> cases h
  | cons operation operations ih =>
    obtain ⟨hfirst, hnext, hrest⟩ := run_perform c operation idle script
    cases before with
    | nil =>
      obtain ⟨rfl, -⟩ := List.cons.inj h
      exact hfirst
    | cons first before =>
      obtain ⟨rfl, hlater⟩ := List.cons.inj h
      have hfaithful := ih hlater
      rw [hnext, hrest, List.drop_drop] at hfaithful
      rw [List.flatMap_cons, List.length_append]
      exact hfaithful

end Client
end RobotHand
