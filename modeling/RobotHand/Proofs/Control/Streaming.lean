import RobotHand.Proofs.Control.Rehearsal

/-! Recordings played to a robot that takes all that it is sent, beside the same recordings
rehearsed. -/
namespace RobotHand

theorem requests_append (calls later : List Call) :
    requests (calls ++ later) = requests calls ++ requests later :=
  List.filterMap_append

namespace Dialogue

variable {α β γ : Type}

theorem bind_done (d : Dialogue α) : d.bind done = d := by
  induction d with
  | done a => rfl
  | ask r next ih => exact congrArg (ask r) (funext ih)
  | close next ih => exact congrArg close ih
  | wait seconds next ih => exact congrArg (wait seconds) ih

theorem bind_bind (d : Dialogue α) (f : α → Dialogue β) (g : β → Dialogue γ) :
    (d.bind f).bind g = d.bind fun a => (f a).bind g := by
  induction d with
  | done a => rfl
  | ask r next ih => exact congrArg (ask r) (funext ih)
  | close next ih => exact congrArg close ih
  | wait seconds next ih => exact congrArg (wait seconds) ih

instance : LawfulMonad Dialogue := .mk' _ bind_done (fun _ _ => rfl) bind_bind

theorem value_run_bind (d : Dialogue α) (f : α → Dialogue β) (idle : Outcome)
    (script : List Outcome) :
    ((d >>= f).run idle script).value =
      ((f (d.run idle script).value).run idle (d.run idle script).rest).value :=
  (congrArg Run.value (run_bind idle d f script)).trans rfl

theorem requests_run_bind (d : Dialogue α) (f : α → Dialogue β) (idle : Outcome)
    (script : List Outcome) :
    requests ((d >>= f).run idle script).calls = requests (d.run idle script).calls ++
      requests ((f (d.run idle script).value).run idle (d.run idle script).rest).calls :=
  (congrArg (fun r => requests r.calls) (run_bind idle d f script)).trans (requests_append _ _)

/-- A pause asks for nothing. -/
theorem run_pause (seconds : Float) (idle : Outcome) (script : List Outcome) :
    ∃ waits, requests waits = [] ∧
      (pause seconds).run idle script = ⟨checkPause seconds, waits, script⟩ := by
  rw [pause]
  cases checkPause seconds with
  | error e => exact ⟨[], rfl, rfl⟩
  | ok _ =>
    dsimp only
    split
    · exact ⟨[.wait seconds], rfl, rfl⟩
    · exact ⟨[], rfl, rfl⟩

theorem value_run_pause (seconds : Float) (idle : Outcome) (script : List Outcome) :
    ((pause seconds).run idle script).value = checkPause seconds := by
  obtain ⟨waits, -, hrun⟩ := run_pause seconds idle script
  rw [hrun]

theorem requests_pause (seconds : Float) (idle : Outcome) (script : List Outcome) :
    requests ((pause seconds).run idle script).calls = [] := by
  obtain ⟨waits, hwaits, hrun⟩ := run_pause seconds idle script
  rw [hrun]
  exact hwaits

end Dialogue

/-- The requests that post lists of commands; an empty list is not posted. -/
def Client.postings (client : Client) (changes : List (List Servo.Command)) : List Request :=
  (changes.filter (· ≠ [])).map fun commands =>
    client.posting (.array (commands.map Servo.Command.json))

theorem Client.postings_append (client : Client) (changes later : List (List Servo.Command)) :
    client.postings (changes ++ later) = client.postings changes ++ client.postings later := by
  rw [postings, List.filter_append, List.map_append]
  rfl

namespace Control

open Dialogue

variable {α β γ : Type} {c : Control} {client : Client} {frame : Frame} {frames : List Frame}
  {seconds : Float} {idle : Outcome} {script : List Outcome}

namespace Turn

variable {t : Turn α} {a : α} {e : Fault}

theorem andThen_of_error (h : t.result = .error e) (f : Control → α → Dialogue (Turn β)) :
    t.andThen f = .done { t with result := .error e } := by
  rw [andThen, h]

theorem andThen_of_ok (h : t.result = .ok a) (f : Control → α → Dialogue (Turn β)) :
    t.andThen f = do
      let later ← f t.control a
      return { later with events := t.events ++ later.events } := by
  rw [andThen, h]

theorem transcript_andThen (h : t.result = .ok a) (f : Control → α → Dialogue (Turn β)) :
    (t.andThen f).transcript idle script = (f t.control a).transcript idle script := by
  rw [andThen_of_ok h, transcript_bind]
  exact List.append_nil _

theorem run_andThen (h : t.result = .ok a) (f : Control → α → Dialogue (Turn β)) :
    let later := (f t.control a).run idle script
    (t.andThen f).run idle script =
      { later with value := { later.value with events := t.events ++ later.value.events } } := by
  intro later
  rw [andThen_of_ok h]
  refine (run_bind idle _ _ script).trans ?_
  change Run.mk _ (later.calls ++ []) later.rest = _
  rw [List.append_nil]
  rfl

/-- What was told before a turn is told before all that follows it. -/
theorem andThen_tell (t : Turn α) (events : List Event) (f : Control → α → Dialogue (Turn β)) :
    ({ t with events := events ++ t.events }.andThen f) = do
      let later ← t.andThen f
      return { later with events := events ++ later.events } := by
  cases h : t.result with
  | error e =>
    rw [andThen, andThen, h]
    rfl
  | ok a =>
    rw [andThen, andThen, h]
    dsimp only
    rw [bind_assoc]
    simp only [pure_bind, List.append_assoc]

theorem andThen_andThen (t : Turn α) (f : Control → α → Dialogue (Turn β))
    (g : Control → β → Dialogue (Turn γ)) :
    (t.andThen f >>= fun later => later.andThen g) =
      t.andThen fun c a => f c a >>= fun later => later.andThen g := by
  cases h : t.result with
  | error e =>
    rw [andThen_of_error h, andThen_of_error h]
    rfl
  | ok a =>
    rw [andThen_of_ok h, andThen_of_ok h]
    simp only [bind_assoc, pure_bind, andThen_tell]

end Turn

/-- A recording is played like its beginning, and then like its rest. -/
theorem stream_append (c : Control) (seconds : Float) (before later : List Frame) :
    c.stream seconds (before ++ later) =
      c.stream seconds before >>= fun played =>
        played.andThen fun c _ => c.stream seconds later := by
  induction before generalizing c with
  | nil =>
    change _ = (⟨c, [], .ok ()⟩ : Turn Unit).andThen fun c _ => c.stream seconds later
    rw [Turn.andThen_of_ok rfl]
    exact (bind_done _).symm
  | cons frame before ih =>
    rw [List.cons_append, stream, stream]
    simp only [ih, Turn.andThen_andThen, bind_assoc]

theorem process_frame_control (c : Control) (frame : Frame) :
    ∃ calculated, (c.process frame).control = { c with calculated } := by
  cases frame with
  | none => exact ⟨c.calculated, rfl⟩
  | some hand => exact process_control hand

/-- A turn leaves what is planned, and the requests made for it post what is planned. A failure is
the planned one, and then nothing is posted. -/
inductive Executes (client : Client) (planned : Turn (List Servo.Command)) (left : Turn α)
    (asked : List Request) : Prop
  | failed {e} (hplanned : planned.result = .error e) (hleft : left.result = .error e)
      (hasked : asked = [])
  | posted {commands a} (hplanned : planned.result = .ok commands) (hleft : left.result = .ok a)
      (hcontrol : left.control = planned.control) (hasked : asked = client.postings [commands])

/-- Sending to a robot that takes what it is sent does what a collection does. -/
theorem send_executes (hready : c.ready)
    (htaken : ∀ e ∈ c.send.transcript idle script, ¬ e.2.Fails) :
    let sending := c.send.run idle script
    Executes c.client c.collect sending.value (requests sending.calls) := by
  rcases c.collect_cases with ⟨complaints, -, hcollect⟩ | ⟨commands, hcommands, hcollect⟩
  · have hsend : c.send = .done ⟨c, [], .error (.invalidCommand complaints)⟩ := by
      rw [send, if_pos hready, hcollect, Turn.andThen_of_error rfl]
    rw [hcollect, hsend]
    exact .failed rfl rfl rfl
  · by_cases hne : commands = []
    · have hdue : c.due = [] := by
        rw [← hcommands, hne]
        rfl
      rw [hcollect, marked_of_idle hdue, send_of_idle hdue, hne]
      exact .posted rfl rfl rfl rfl
    · have hsend := send_of_due hready hcommands.symm hne
      rw [hsend, transcript_ask_done, List.forall_mem_singleton] at htaken
      rw [hcollect, hsend, run_ask_done, afterPost_of_not_fails htaken]
      refine .posted rfl rfl rfl ?_
      simp [Client.postings, hne, requests, posting]

/-- The pause after the last frame of a recording. -/
theorem run_last_pause (c : Control) (seconds : Float) (idle : Outcome) (script : List Outcome) :
    let pausing : Dialogue (Turn Unit) := do
      let pausing : Turn Unit := ⟨c, [], (← Dialogue.pause seconds).mapError .breakdown⟩
      pausing.andThen fun c _ => c.stream seconds []
    let paused := pausing.run idle script
    paused.value.result = (checkPause seconds).mapError .breakdown ∧ paused.value.control = c ∧
      requests paused.calls = [] := by
  intro pausing paused
  have hrequests : requests paused.calls = _ := requests_run_bind _ _ idle script
  have hvalue : paused.value = _ := value_run_bind _ _ idle script
  rw [requests_pause] at hrequests
  rw [value_run_pause] at hrequests hvalue
  rw [hrequests, hvalue]
  cases checkPause seconds with
  | error e => exact ⟨rfl, rfl, rfl⟩
  | ok _ => exact ⟨rfl, rfl, rfl⟩

/-- Playing one frame to a robot that takes what it is sent posts what is rehearsed for it, and ends
like its rehearsal. -/
theorem run_stream_frame (hready : c.ready)
    (htaken : ∀ e ∈ (c.stream seconds [frame]).transcript idle script, ¬ e.2.Fails) :
    let playing := (c.stream seconds [frame]).run idle script
    let rehearsal := c.rehearse seconds [frame]
    playing.value.result = rehearsal.2 ∧ requests playing.calls = c.client.postings rehearsal.1 ∧
      (rehearsal.2 = .ok () → playing.value.control = (c.rehearseFrame frame).control) := by
  rw [stream] at htaken ⊢
  cases hseen : (c.process frame).result with
  | error e =>
    have hframe := congrArg Turn.result (rehearseFrame_of_error hseen)
    rw [Turn.andThen_of_error hseen, rehearse_cons_of_error hframe]
    exact ⟨rfl, rfl, nofun⟩
  | ok positions =>
    obtain ⟨calculated, hcontrol⟩ := c.process_frame_control frame
    have hframe := rehearseFrame_of_ok hseen
    rw [Turn.transcript_andThen hseen, transcript_bind, hcontrol] at htaken
    rw [hcontrol] at hframe
    rw [Turn.run_andThen hseen, hcontrol]
    dsimp only
    rw [value_run_bind, requests_run_bind]
    have hsending := send_executes (c := { c with calculated }) hready
      fun e he => htaken e (List.mem_append_left _ he)
    cases hsending with
    | failed hplanned hleft hasked =>
      have hfails := (congrArg Turn.result hframe).trans hplanned
      rw [Turn.andThen_of_error hleft, hasked, rehearse_cons_of_error hfails]
      exact ⟨rfl, rfl, nofun⟩
    | posted hplanned hleft hleaves hasked =>
      have hfinds := (congrArg Turn.result hframe).trans hplanned
      rw [Turn.run_andThen hleft, hasked, hleaves, rehearse_cons hfinds, hframe]
      dsimp only
      obtain ⟨hresult, hpaused, hnone⟩ := run_last_pause { c with calculated }.collect.control
        seconds idle ({ c with calculated }.send.run idle script).rest
      rw [hresult, hpaused, hnone]
      cases checkPause seconds with
      | error e => exact ⟨rfl, List.append_nil _, nofun⟩
      | ok _ => exact ⟨rfl, List.append_nil _, fun _ => rfl⟩

theorem rehearseFrame_control (c : Control) (frame : Frame) :
    ∃ calculated sent, (c.rehearseFrame frame).control = { c with calculated, sent } := by
  obtain ⟨calculated, hcontrol⟩ := c.process_frame_control frame
  cases hseen : (c.process frame).result with
  | error e =>
    rw [rehearseFrame_of_error hseen]
    exact ⟨c.calculated, c.sent, rfl⟩
  | ok positions =>
    rw [rehearseFrame_of_ok hseen, hcontrol]
    rcases collect_control (c := { c with calculated }) with hcollect | hcollect
    · exact ⟨calculated, c.sent, hcollect⟩
    · exact ⟨calculated, _, hcollect⟩

/-- Playing a recording to a robot that takes all that it is sent posts the commands that are
rehearsed, and ends like the rehearsal. -/
theorem run_stream (hready : c.ready)
    (htaken : ∀ e ∈ (c.stream seconds frames).transcript idle script, ¬ e.2.Fails) :
    let playing := (c.stream seconds frames).run idle script
    playing.value.result = (c.rehearse seconds frames).2 ∧
      requests playing.calls = c.client.postings (c.rehearse seconds frames).1 := by
  induction frames generalizing c script with
  | nil => exact ⟨rfl, rfl⟩
  | cons frame frames ih =>
    rw [← List.singleton_append, stream_append, transcript_bind] at htaken
    rw [← List.singleton_append, stream_append]
    dsimp only
    rw [value_run_bind, requests_run_bind]
    obtain ⟨hfirst, hasked, hleaves⟩ :=
      run_stream_frame hready fun e he => htaken e (List.mem_append_left _ he)
    cases hframe : (c.rehearse seconds [frame]).2 with
    | error e =>
      rw [Turn.andThen_of_error (hfirst.trans hframe), hasked, rehearse_append_of_error hframe]
      exact ⟨hframe.symm, List.append_nil _⟩
    | ok _ =>
      -- The frame leaves the connection as it is, so the control is ready for the next one.
      obtain ⟨calculated, sent, hkept⟩ := c.rehearseFrame_control frame
      have hlater := fun e he => htaken e (List.mem_append_right _ he)
      rw [Turn.transcript_andThen (hfirst.trans hframe), hleaves hframe, hkept] at hlater
      obtain ⟨hresult, hrequests⟩ := ih (c := { c with calculated, sent }) hready hlater
      rw [Turn.run_andThen (hfirst.trans hframe), hasked, rehearse_append hframe, hleaves hframe,
        rehearsed, List.foldl_cons, List.foldl_nil, hkept]
      dsimp only
      rw [hrequests]
      exact ⟨hresult, (c.client.postings_append _ _).symm⟩

def Turn.connecting (connected : Bool) (t : Turn α) : Turn α :=
  { t with control := { t.control with connected } }

/-- Whether the robot answers makes no difference to a collection. -/
theorem collect_connected (c : Control) (connected : Bool) :
    { c with connected }.collect = c.collect.connecting connected := by
  cases h : c.collect.result with
  | error e =>
    have hfails : ∃ e, { c with connected }.collect.result = .error e :=
      collect_fails_iff.2 (collect_fails_iff (c := c) |>.1 ⟨e, h⟩)
    obtain ⟨e', h'⟩ := hfails
    rw [collect_of_error h, collect_of_error h']
    rfl
  | ok commands =>
    have hdue : c.due = commands.map Servo.Command.entry := (entries_of_collect h).symm
    rw [collect_of_due hdue, collect_of_due (c := { c with connected }) hdue]
    rfl

theorem process_connected (c : Control) (connected : Bool) (frame : Frame) :
    { c with connected }.process frame = (c.process frame).connecting connected := by
  cases frame with
  | none => rfl
  | some hand =>
    cases hpositions : c.positionsOn hand with
    | error b =>
      rw [process_of_error hpositions, process_of_error (c := { c with connected }) hpositions]
      rfl
    | ok positions =>
      rw [process_of_ok hpositions, process_of_ok (c := { c with connected }) hpositions]
      rfl

theorem rehearseFrame_connected (c : Control) (connected : Bool) (frame : Frame) :
    { c with connected }.rehearseFrame frame = (c.rehearseFrame frame).connecting connected := by
  have hprocess := c.process_connected connected frame
  cases h : (c.process frame).result with
  | error e =>
    have h' := (congrArg Turn.result hprocess).trans h
    rw [rehearseFrame_of_error h, rehearseFrame_of_error h']
    rfl
  | ok positions =>
    have h' := (congrArg Turn.result hprocess).trans h
    rw [rehearseFrame_of_ok h, rehearseFrame_of_ok h', hprocess]
    exact (c.process frame).control.collect_connected connected

/-- A rehearsal is the same before and after the poll that connects a control. -/
theorem rehearse_connected (c : Control) (connected : Bool) (seconds : Float)
    (frames : List Frame) :
      { c with connected }.rehearse seconds frames = c.rehearse seconds frames := by
  induction frames generalizing c with
  | nil => rfl
  | cons frame frames ih =>
    have hframe := c.rehearseFrame_connected connected frame
    cases h : (c.rehearseFrame frame).result with
    | error e =>
      have h' := (congrArg Turn.result hframe).trans h
      rw [rehearse_cons_of_error h, rehearse_cons_of_error h']
    | ok commands =>
      have h' := (congrArg Turn.result hframe).trans h
      rw [rehearse_cons h, rehearse_cons h', hframe, Turn.connecting, ih]

def play (c : Control) (seconds : Float) (frames : List Frame) : Dialogue (Turn Unit) := do
  let poll ← c.refresh
  poll.control.stream seconds frames

/-- A robot that is asked so takes what it is sent, and gives a status that can be read and is not
null. -/
def Obliging (contact : Request × Outcome) : Prop :=
  ∃ status body, contact.2 = .answered status body ∧ (200 ≤ status ∧ status < 300) ∧
    (contact.1.method = .get → ∃ report, body = .ok report ∧ report ≠ .null)

theorem Obliging.not_fails {contact : Request × Outcome} (h : Obliging contact) :
    ¬ contact.2.Fails := by
  obtain ⟨status, body, houtcome, hstatus, -⟩ := h
  rw [houtcome]
  exact not_not.2 hstatus

theorem afterPoll_of_obliging {o : Outcome} (h : Obliging (c.client.polling, o)) :
    ∃ report, report ≠ .null ∧ (c.afterPoll o).result = .ok report ∧
      (c.afterPoll o).control = { c with connected := true } := by
  obtain ⟨status, body, rfl, hstatus, hreport⟩ := h
  obtain ⟨report, rfl, hnull⟩ := hreport rfl
  have hreply : (Outcome.answered status (.ok report)).reply .get c.client.servos =
      .ok (.ok report) := if_pos hstatus
  rw [afterPoll, hreply]
  exact ⟨report, hnull, rfl, setConnected_control c true⟩

theorem run_refresh (haddress : c.client.address ≠ "") (idle : Outcome) (script : List Outcome) :
    c.refresh.run idle script =
      ⟨c.afterPoll (script.headD idle), [.request c.client.polling], script.tail⟩ := by
  rw [refresh_eq haddress, run_ask_done]

theorem transcript_refresh (haddress : c.client.address ≠ "") (idle : Outcome)
    (script : List Outcome) :
    c.refresh.transcript idle script = [(c.client.polling, script.headD idle)] := by
  rw [refresh_eq haddress, transcript_ask_done]

/-- A recording played to an obliging robot posts the commands that are rehearsed, after one poll,
and ends like the rehearsal. -/
theorem run_play (haddress : c.client.address ≠ "")
    (hobliging : ∀ e ∈ (c.play seconds frames).transcript idle script, Obliging e) :
    let playing := (c.play seconds frames).run idle script
    playing.value.result = (c.rehearse seconds frames).2 ∧
      requests playing.calls =
        c.client.polling :: c.client.postings (c.rehearse seconds frames).1 := by
  rw [play, transcript_bind, transcript_refresh haddress, run_refresh haddress,
    List.singleton_append, List.forall_mem_cons] at hobliging
  obtain ⟨hpoll, hposts⟩ := hobliging
  obtain ⟨report, -, -, hcontrol⟩ := afterPoll_of_obliging hpoll
  rw [hcontrol] at hposts
  have hready : { c with connected := true }.ready := ready_iff.2 ⟨haddress, rfl⟩
  obtain ⟨hresult, hrequests⟩ := run_stream hready fun e he => (hposts e he).not_fails
  rw [rehearse_connected] at hresult hrequests
  dsimp only
  rw [play, value_run_bind, requests_run_bind, run_refresh haddress, hcontrol, hrequests]
  exact ⟨hresult, rfl⟩

/-- What is asked of a robot while the beginning of a recording is played is asked at first while
the recording is played. -/
theorem transcript_play_append (c : Control) (seconds : Float) (before later : List Frame)
    (idle : Outcome) (script : List Outcome) :
    (c.play seconds before).transcript idle script <+:
      (c.play seconds (before ++ later)).transcript idle script := by
  rw [play, play, transcript_bind, transcript_bind, List.prefix_append_right_inj, stream_append,
    transcript_bind]
  exact List.prefix_append _ _

/-- The beginning of a recording that is played to an obliging robot posts the beginning of what is
rehearsed. It ends like the rehearsal of the beginning, and succeeds unless it reaches the frame
that the rehearsal fails on or a pause that cannot be made. -/
theorem run_play_take (haddress : c.client.address ≠ "")
    (hobliging : ∀ e ∈ (c.play seconds frames).transcript idle script, Obliging e) {n : Nat}
    (hn : n ≤ frames.length) :
    let beginning := (c.play seconds (frames.take n)).run idle script
    let changes := (c.rehearse seconds frames).1
    requests beginning.calls = c.client.polling :: c.client.postings (changes.take n) ∧
      beginning.value.result = (c.rehearse seconds (frames.take n)).2 ∧
      (beginning.value.result = .ok () ↔
        n = 0 ∨ n ≤ changes.length ∧ checkPause seconds = .ok ()) := by
  intro beginning changes
  have hbeginning := c.transcript_play_append seconds (frames.take n) (frames.drop n) idle script
  rw [List.take_append_drop] at hbeginning
  obtain ⟨hresult, hrequests⟩ := run_play haddress fun e he => hobliging e (hbeginning.subset he)
  have htake := c.rehearse_take seconds frames n
  change beginning.value.result = _ at hresult
  rw [htake] at hrequests
  refine ⟨hrequests, hresult, ?_⟩
  rw [hresult, htake]
  dsimp only
  split
  · next h => exact iff_of_true rfl h
  · next h =>
    -- A rehearsal that does not fail leads to a list of commands for every frame.
    refine iff_of_false (fun hok => h ?_) h
    cases frames with
    | nil => exact .inl (Nat.le_zero.1 hn)
    | cons frame frames =>
      exact .inr ⟨length_rehearse hok ▸ hn, (rehearse_cons_ok hok).2.1⟩

end Control
end RobotHand
