import RobotHand.Proofs.CommandLine.Replaying
import RobotHand.Proofs.Control.Connection
import RobotHand.Proofs.Control.Failing

/-! What the status that a poll results in tells of the connection, and whether a replay goes on
after its poll. -/
namespace RobotHand.CommandLine.Report

open Control

variable {s : Settings} {address : Option String} {c : Control} {tree : FileTree}
  {frames settings : String} {recording : List Frame} {interval : Float} {idle : Outcome}
  {script : List Outcome} {live : Dialogue.Run Report}

/-- A run of a replay that polls the robot and ends there, with the robot reported as unreachable.
-/
def GivesUp (c : Control) (idle : Outcome) (script : List Outcome) (live : Dialogue.Run Report) :
    Prop :=
  let poll := c.refresh.run idle script
  live = ⟨exit 1, poll.calls, poll.rest⟩

theorem exit_ne_ofEnding (output : String) (ending : Except Fault Unit) :
    exit 1 ≠ ofEnding output ending := by
  intro h
  cases ending with
  | ok _ => exact absurd (Except.ok.inj (congrArg ending h)) (by decide)
  | error e => cases congrArg ending h

theorem GivesUp.not_streams (hgives : GivesUp c idle script live) :
    ¬ Streams c interval recording idle script live := by
  intro hstreams
  exact exit_ne_ofEnding _ _ (congrArg Dialogue.Run.value (hgives.symm.trans hstreams))

theorem player_not_connected (h : player s address = .ok c) : c.connected = false := by
  obtain ⟨built, hbuilt, rfl⟩ := player_eq_ok_iff.1 h
  obtain ⟨maxima, formulas, -, -, rfl⟩ := ofSettings_eq_ok_iff.1 hbuilt
  cases address with
  | none => rfl
  | some address => exact congrArg connected (setConnected_control _ false)

theorem refresh_of_no_address (haddress : c.client.address = "") (idle : Outcome)
    (script : List Outcome) : c.refresh.run idle script = ⟨⟨c, [], .ok .null⟩, [], script⟩ := by
  rw [refresh, if_pos haddress]
  rfl

section Endings

variable (hload : Settings.load tree (Path.ofText settings) = .ok s)
  (hframes : load? tree frames Frame.readAll = some recording) (hplayer : player s address = .ok c)

include hload hframes hplayer

theorem givesUp_of_null (hnull : (c.refresh.run idle script).value.result = .ok .null) :
    GivesUp c idle script
      ((replay tree frames settings address interval false).run idle script) := by
  rw [GivesUp, replay_live hload hframes hplayer]
  refine (Dialogue.run_bind idle c.refresh _ script).trans ?_
  dsimp only
  rw [hnull]
  simp only [Dialogue.run, pure, List.append_nil]

theorem run_replay_of_poll_error {e : Fault}
    (herror : (c.refresh.run idle script).value.result = .error e) :
    let poll := c.refresh.run idle script
    (replay tree frames settings address interval false).run idle script =
      ⟨crash (.control e), poll.calls, poll.rest⟩ := by
  rw [replay_live hload hframes hplayer]
  refine (Dialogue.run_bind idle c.refresh _ script).trans ?_
  dsimp only
  rw [herror]
  simp only [Dialogue.run, pure, List.append_nil]

theorem streams_iff (hpolled : ∃ report, (c.refresh.run idle script).value.result = .ok report) :
    Streams c interval recording idle script
        ((replay tree frames settings address interval false).run idle script) ↔
      (c.refresh.run idle script).value.result ≠ .ok .null := by
  constructor
  · intro hstreams hnull
    exact (givesUp_of_null hload hframes hplayer hnull).not_streams hstreams
  · intro hnull
    obtain ⟨report, hresult⟩ := hpolled
    exact streams_of_report hload hframes hplayer (fun h => hnull (h ▸ hresult)) hresult

theorem givesUp_iff (hpolled : ∃ report, (c.refresh.run idle script).value.result = .ok report) :
    GivesUp c idle script ((replay tree frames settings address interval false).run idle script) ↔
      (c.refresh.run idle script).value.result = .ok .null := by
  constructor
  · intro hgives
    by_contra hnull
    exact hgives.not_streams ((streams_iff hload hframes hplayer hpolled).2 hnull)
  · exact givesUp_of_null hload hframes hplayer

end Endings

/-- The result of a poll and the connection after it tell the same, unless the robot reports null.
-/
theorem refresh_null_iff (haddress : c.client.address ≠ "")
    (hread : ¬ (script.headD idle).Overwhelms) :
    let poll := (c.refresh.run idle script).value
    (poll.result = .ok .null ↔ poll.control.connected = false) ↔
      ¬ (script.headD idle).Reports .null := by
  rw [run_refresh haddress]
  dsimp only
  by_cases hserves : (script.headD idle).Serves .get
  · obtain ⟨report, hreport⟩ := Outcome.serves_get_iff.1 hserves
    obtain ⟨hresult, hconnected⟩ := afterPoll_of_reports hreport c
    rw [hresult, hconnected]
    constructor
    · intro h hnull
      cases hreport.unique hnull
      cases h.1 rfl
    · intro hnull
      refine ⟨fun h => ?_, nofun⟩
      cases h
      exact absurd hreport hnull
  · obtain ⟨hresult, hconnected⟩ := afterPoll_of_not_serves hserves hread c
    rw [hresult, hconnected]
    exact ⟨fun _ hnull => hserves (Outcome.serves_get_iff.2 ⟨_, hnull⟩),
      fun _ => ⟨fun _ => rfl, fun _ => rfl⟩⟩

section Endings

variable (hload : Settings.load tree (Path.ofText settings) = .ok s)
  (hframes : load? tree frames Frame.readAll = some recording) (hplayer : player s address = .ok c)

include hload hframes hplayer

/-- How a replay goes on tells the connection after its poll, unless the robot reports null. -/
theorem endings_tell_connection
    (hread : c.client.address = "" ∨ ¬ (script.headD idle).Overwhelms) :
    let live := (replay tree frames settings address interval false).run idle script
    let connected := (c.refresh.run idle script).value.control.connected
    let streams := Streams c interval recording idle script live
    let givesUp := GivesUp c idle script live
    (streams ∨ givesUp) ∧ ¬ (streams ∧ givesUp) ∧
      ((streams ↔ connected = true) ∧ (givesUp ↔ connected = false) ↔
        c.client.address = "" ∨ ¬ (script.headD idle).Reports .null) := by
  have hpolled : ∃ report, (c.refresh.run idle script).value.result = .ok report := by
    rcases hread with haddress | hread
    · exact ⟨.null, congrArg (fun run => run.value.result)
        (refresh_of_no_address haddress idle script)⟩
    · exact c.refresh_result hread
  dsimp only
  rw [streams_iff hload hframes hplayer hpolled, givesUp_iff hload hframes hplayer hpolled]
  refine ⟨(Classical.em _).symm, fun h => h.1 h.2, ?_⟩
  -- The two endings exclude each other, so that one comparison with the connection is enough.
  have hboth : ∀ (null : Prop) (connected : Bool), (null ↔ connected = false) ↔
      (¬ null ↔ connected = true) ∧ (null ↔ connected = false) := by
    intro null connected
    refine ⟨fun h => ⟨?_, h⟩, And.right⟩
    rw [h, Bool.not_eq_false]
  rw [← hboth]
  by_cases haddress : c.client.address = ""
  · rw [refresh_of_no_address haddress, player_not_connected hplayer]
    exact ⟨fun _ => .inl haddress, fun _ => ⟨fun _ => rfl, fun _ => rfl⟩⟩
  · have hpoll : (_ ↔ _) ↔ _ := refresh_null_iff haddress (hread.resolve_left haddress)
    rw [hpoll]
    exact (or_iff_right haddress).symm

theorem run_replay_of_overwhelms (haddress : c.client.address ≠ "")
    (h : (script.headD idle).Overwhelms) :
    let live := (replay tree frames settings address interval false).run idle script
    requests live.calls = [c.client.polling] ∧
      ∃ reason, live.value = crash (.control (.link (.overwhelmed reason))) := by
  have hpoll := run_refresh haddress idle script
  obtain ⟨reason, hfails⟩ := afterPoll_of_overwhelms h c
  rw [hfails] at hpoll
  rw [run_replay_of_poll_error hload hframes hplayer
    (congrArg (fun run => run.value.result) hpoll), hpoll]
  exact ⟨rfl, reason, rfl⟩

end Endings

/-- A poll of a robot at an address has a result unless the reader of the status breaks down, and
connects exactly if the robot answers with a success that a status can be read from. The result is
null exactly if the poll does not connect, and a replay streams its recording exactly if its poll
connects and gives up exactly if it does not, unless the status that the robot reports is itself
null: then the poll connects, its result is null, and a replay gives up. If the reader breaks down,
the poll fails, changes nothing, and ends a replay. -/
theorem poll_tells_connection_unless_null (idle : Outcome) (script : List Outcome) :
    let o := script.headD idle
    (∀ c : Control, c.client.address ≠ "" →
      let poll := (c.refresh.run idle script).value
      (¬ o.Overwhelms → (∃ status, poll.result = .ok status) ∧
        (poll.control.connected = true ↔ ∃ report, o.Reports report) ∧
        ((poll.result = .ok .null ↔ poll.control.connected = false) ↔ ¬ o.Reports .null)) ∧
      (o.Overwhelms → ∃ reason, poll = ⟨c, [], .error (.link (.overwhelmed reason))⟩)) ∧
      ∀ tree frames settings address interval s recording c,
        Settings.load tree (Path.ofText settings) = .ok s →
        load? tree frames Frame.readAll = some recording → player s address = .ok c →
          let live := (replay tree frames settings address interval false).run idle script
          let connected := (c.refresh.run idle script).value.control.connected
          let streams := Streams c interval recording idle script live
          let givesUp := GivesUp c idle script live
          (c.client.address = "" ∨ ¬ o.Overwhelms → (streams ∨ givesUp) ∧ ¬ (streams ∧ givesUp) ∧
            ((streams ↔ connected = true) ∧ (givesUp ↔ connected = false) ↔
              c.client.address = "" ∨ ¬ o.Reports .null)) ∧
          (c.client.address ≠ "" → o.Overwhelms → requests live.calls = [c.client.polling] ∧
            ∃ reason, live.value = crash (.control (.link (.overwhelmed reason)))) := by
  intro o
  constructor
  · intro c haddress poll
    have hpoll : poll = c.afterPoll o :=
      congrArg Dialogue.Run.value (run_refresh haddress idle script)
    refine ⟨fun hread => ⟨c.refresh_result hread, ?_, refresh_null_iff haddress hread⟩, fun h => ?_⟩
    · rw [hpoll, connected_afterPoll c hread, Outcome.serves_get_iff]
    · rw [hpoll]
      exact afterPoll_of_overwhelms h c
  · intro tree frames settings address interval s recording c hload hframes hplayer
    exact ⟨endings_tell_connection hload hframes hplayer,
      run_replay_of_overwhelms hload hframes hplayer⟩

/-- A robot that reports something. -/
theorem poll_tells_connection_unless_null_shelf :
    let idle := Outcome.answered 200 (.ok (.bool true))
    let live := (replay shelf "once.json" "a.json" none 0.5 false).run idle []
    ∃ s c, Settings.load shelf (Path.ofText "a.json") = .ok s ∧
      load? shelf "once.json" Frame.readAll = some [some [], none] ∧ player s none = .ok c ∧
      c.client.address ≠ "" ∧
        let poll := (c.refresh.run idle []).value
        poll.control.connected = true ∧ poll.result ≠ .ok .null ∧
          Streams c 0.5 [some [], none] idle [] live := by
  intro idle live
  obtain ⟨s, c, hload, hknown, hplayer, -⟩ := rehearse_shelf
  have haddress : c.client.address ≠ "" := (player_spec hplayer).1 ▸ hknown
  have hreport : idle.Reports (.bool true) := ⟨200, by decide, rfl⟩
  have hnull : ¬ idle.Reports .null := fun h => nomatch hreport.unique h
  have hread : ¬ idle.Overwhelms := id
  obtain ⟨hpolls, hreplays⟩ := poll_tells_connection_unless_null idle []
  obtain ⟨-, hreached, hresult⟩ := (hpolls c haddress).1 hread
  obtain ⟨-, -, hiff⟩ := (hreplays shelf "once.json" "a.json" none 0.5 s _ c hload shelf_frames.1
    hplayer).1 (.inr hread)
  have hconnected := hreached.2 ⟨_, hreport⟩
  refine ⟨s, c, hload, shelf_frames.1, hplayer, haddress, hconnected, fun h => ?_, ?_⟩
  · cases hconnected.symm.trans ((hresult.2 hnull).1 h)
  · exact (hiff.2 (.inr hnull)).1.2 hconnected

/-- A robot that answers with a success and null is connected, but taken for unreachable: nothing of
the recording is posted. -/
theorem null_status_is_taken_for_unreachable :
    let idle := Outcome.answered 200 (.ok .null)
    let live := (replay shelf "once.json" "a.json" none 0.5 false).run idle []
    ∃ s c, Settings.load shelf (Path.ofText "a.json") = .ok s ∧
      load? shelf "once.json" Frame.readAll = some [some [], none] ∧ player s none = .ok c ∧
      c.client.address ≠ "" ∧
        let poll := (c.refresh.run idle []).value
        poll.control.connected = true ∧ poll.result = .ok .null ∧ live.value = exit 1 ∧
          requests live.calls = [c.client.polling] := by
  intro idle live
  obtain ⟨s, c, hload, hknown, hplayer, -⟩ := rehearse_shelf
  have haddress : c.client.address ≠ "" := (player_spec hplayer).1 ▸ hknown
  have hreport : idle.Reports .null := ⟨200, by decide, rfl⟩
  obtain ⟨hresult, hconnected⟩ := afterPoll_of_reports hreport c
  have hpoll := run_refresh haddress idle []
  have hnull : (c.refresh.run idle []).value.result = .ok .null :=
    (congrArg (fun run => Turn.result run.value) hpoll).trans hresult
  have hgives : live = _ := givesUp_of_null hload shelf_frames.1 hplayer hnull
  refine ⟨s, c, hload, shelf_frames.1, hplayer, haddress, ?_, hnull, ?_, ?_⟩
  · rw [hpoll]
    exact hconnected
  · rw [hgives]
  · rw [hgives, hpoll]
    rfl

end RobotHand.CommandLine.Report
