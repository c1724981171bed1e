import RobotHand.Proofs.CommandLine.Lines
import RobotHand.Proofs.Control.Blocking
import RobotHand.Proofs.Control.Streaming

/-! What a replay sends to the robot, what a dry run tells of it, and which frames make no
difference to a dry run. -/
namespace RobotHand.CommandLine.Report

open Control

variable {s : Settings} {address : Option String} {b : Breakdown} {c : Control} {tree : FileTree}
  {frames settings : String} {recording : List Frame} {interval : Float}
  {idle : Outcome} {script : List Outcome}

def player (s : Settings) (address : Option String) : Except Breakdown Control :=
  (ofSettings s).map fun c => (address.map fun address => (c.setAddress address).control).getD c

theorem player_eq_ok_iff : player s address = .ok c ↔ ∃ built, ofSettings s = .ok built ∧
    (address.map fun address => (built.setAddress address).control).getD built = c := by
  unfold player
  cases ofSettings s <;> simp [Except.map]

theorem player_eq_error_iff : player s address = .error b ↔ ofSettings s = .error b := by
  unfold player
  cases ofSettings s <;> simp [Except.map]

theorem player_spec (h : player s address = .ok c) :
    c.client.address = address.getD s.address ∧ 0 ≤ c.threshold ∧ c.calculated = .empty := by
  obtain ⟨built, hbuilt, rfl⟩ := player_eq_ok_iff.1 h
  obtain ⟨maxima, formulas, -, -, rfl⟩ := ofSettings_eq_ok_iff.1 hbuilt
  cases address with
  | none => exact ⟨rfl, s.threshold_nonneg, rfl⟩
  | some address =>
    rw [Option.map_some, Option.getD_some, setAddress, setConnected_control]
    exact ⟨rfl, s.threshold_nonneg, rfl⟩

theorem requests_forM_pause {α : Type} (l : List α) (seconds : Float) (idle : Outcome)
    (script : List Outcome) :
    requests ((l.forM fun _ => discard (Dialogue.pause seconds)).run idle script).calls = [] := by
  have hpause : ∀ script,
      requests ((discard (Dialogue.pause seconds)).run idle script).calls = [] := by
    intro script
    refine (Dialogue.requests_run_bind (Dialogue.pause seconds) _ idle script).trans ?_
    rw [Dialogue.requests_pause]
    rfl
  induction l generalizing script with
  | nil => rfl
  | cons a l ih =>
    rw [List.forM, Dialogue.requests_run_bind, hpause, ih]
    rfl

/-- A run of a replay that polls the robot and goes on to stream the recording. -/
def Streams (c : Control) (interval : Float) (recording : List Frame) (idle : Outcome)
    (script : List Outcome) (live : Dialogue.Run Report) : Prop :=
  let playing := (c.play interval recording).run idle script
  live = ⟨ofEnding "" playing.value.result, playing.calls, playing.rest⟩

section Equations

variable (hload : Settings.load tree (Path.ofText settings) = .ok s)
  (hframes : load? tree frames Frame.readAll = some recording)

include hload hframes

theorem replay_of_error (h : player s address = .error b) (dry : Bool) :
    replay tree frames settings address interval dry = .done (crash (.breakdown b)) := by
  rw [replay, hload, hframes]
  dsimp only
  rw [player_eq_error_iff.1 h]

theorem replay_dry (h : player s address = .ok c) :
    let rehearsal := c.rehearse interval recording
    replay tree frames settings address interval true = do
      rehearsal.1.forM fun _ => discard (Dialogue.pause interval)
      return ofEnding (lines (rehearsal.1.mapIdx changeLine)) rehearsal.2 := by
  obtain ⟨built, hbuilt, rfl⟩ := player_eq_ok_iff.1 h
  rw [replay, hload, hframes]
  dsimp only
  rw [hbuilt]
  rfl

theorem replay_live (h : player s address = .ok c) :
    replay tree frames settings address interval false = do
      let poll ← c.refresh
      match poll.result with
      | .error e => return crash (.control e)
      | .ok .null => return exit 1
      | .ok _ => return ofEnding "" (← poll.control.stream interval recording).result := by
  obtain ⟨built, hbuilt, rfl⟩ := player_eq_ok_iff.1 h
  rw [replay, hload, hframes]
  dsimp only
  rw [hbuilt]
  rfl

/-- A dry run tells what is rehearsed, and asks for nothing. -/
theorem run_replay_dry (h : player s address = .ok c) (idle : Outcome) (script : List Outcome) :
    let dry := (replay tree frames settings address interval true).run idle script
    let rehearsal := c.rehearse interval recording
    dry.value = ofEnding (lines (rehearsal.1.mapIdx changeLine)) rehearsal.2 ∧
      requests dry.calls = [] := by
  rw [replay_dry hload hframes h]
  dsimp only
  rw [Dialogue.value_run_bind, Dialogue.requests_run_bind, requests_forM_pause]
  exact ⟨rfl, rfl⟩

theorem streams_of_report (h : player s address = .ok c) {report : Json} (hreport : report ≠ .null)
    (hresult : (c.refresh.run idle script).value.result = .ok report) :
    Streams c interval recording idle script
      ((replay tree frames settings address interval false).run idle script) := by
  have hplaying : (c.play interval recording).run idle script = _ :=
    Dialogue.run_bind idle c.refresh _ script
  rw [Streams, replay_live hload hframes h, hplaying]
  refine (Dialogue.run_bind idle c.refresh _ script).trans ?_
  dsimp only
  rw [hresult]
  -- The status is looked at for one thing only, whether it is null.
  cases report with
  | null => exact absurd rfl hreport
  | _ =>
    dsimp only
    rw [show Dialogue.run idle (_ >>= _) _ = _ from Dialogue.run_bind idle _ _ _]
    simp only [Dialogue.run, pure, List.append_nil]

/-- With an obliging robot, a replay polls it and plays the recording to it. -/
theorem run_replay_live (h : player s address = .ok c) (haddress : c.client.address ≠ "")
    (hobliging : ∀ e ∈ (replay tree frames settings address interval false).transcript idle script,
      Obliging e) :
    let live := (replay tree frames settings address interval false).run idle script
    let playing := (c.play interval recording).run idle script
    (∀ e ∈ (c.play interval recording).transcript idle script, Obliging e) ∧
      live.value = ofEnding "" playing.value.result ∧
      requests live.calls = requests playing.calls := by
  intro live playing
  rw [replay_live hload hframes h, Dialogue.transcript_bind, transcript_refresh haddress,
    run_refresh haddress, List.singleton_append, List.forall_mem_cons] at hobliging
  obtain ⟨hpoll, hposts⟩ := hobliging
  obtain ⟨report, hnull, hresult, hcontrol⟩ := afterPoll_of_obliging hpoll
  have hpolled : (c.refresh.run idle script).value.result = .ok report := by
    rw [run_refresh haddress]
    exact hresult
  have hstreams : live = _ := streams_of_report hload hframes h hnull hpolled
  refine ⟨?_, congrArg Dialogue.Run.value hstreams,
    congrArg (fun run => requests (Dialogue.Run.calls run)) hstreams⟩
  rw [play, Dialogue.transcript_bind, transcript_refresh haddress, run_refresh haddress,
    List.singleton_append, List.forall_mem_cons]
  rw [hresult] at hposts
  cases report with
  | null => exact absurd rfl hnull
  | _ =>
    dsimp only at hposts
    rw [Dialogue.transcript_bind] at hposts
    exact ⟨hpoll, fun e he => hposts e (List.mem_append_left _ he)⟩

end Equations

theorem ending_ofEnding (output output' : String) (ending : Except Fault Unit) :
    (ofEnding output ending).ending = (ofEnding output' ending).ending := by
  cases ending <;> rfl

theorem output_ofEnding (output : String) (ending : Except Fault Unit) :
    (ofEnding output ending).output = output := by
  cases ending <;> rfl

/-- A settings file with one formula, a recording of a hand that leaves, and the same recording with
a frame that comes twice. -/
def shelf : FileTree :=
  let file := fun tree name text => FileTree.put tree (Path.ofText name) (.file text)
  let tree := file .empty "a.json"
    "\x7b\"robotIp\":\"10.0.0.7\",\"formulas\":\x7b\"1\":\"100\"\x7d\x7d"
  file (file tree "once.json" "[[],null]") "twice.json" "[[],[],null]"

theorem shelf_spec :
    ∃ s, Settings.load shelf (Path.ofText "a.json") = .ok s ∧ s.address ≠ "" ∧
      ∃ c, player s none = .ok c ∧ ∃ positions, (c.process (some [])).result = .ok positions ∧
        let now := (c.process (some [])).control
        0 ≤ now.threshold ∧ now.calculated.entries = [(1, 100)] ∧
          now.moved [(1, 100)] = [(1, 100)] := by
  decide +kernel

theorem shelf_frames :
    load? shelf "once.json" Frame.readAll = some [some [], none] ∧
      load? shelf "twice.json" Frame.readAll = some [some [], some [], none] := by
  decide +kernel

theorem brief_pause : Dialogue.checkPause 0.5 = .ok () := by decide +kernel

/-- The servo moves with the first frame and rests from then on. -/
theorem rehearse_shelf :
    ∃ s c, Settings.load shelf (Path.ofText "a.json") = .ok s ∧ s.address ≠ "" ∧
      player s none = .ok c ∧
      c.rehearse 0.5 [some [], none] = ([[⟨1, 100, by decide⟩], []], .ok ()) := by
  obtain ⟨s, hload, haddress, c, hplayer, positions, hpositions, hthreshold, hentries, hmoved⟩ :=
    shelf_spec
  have hdue : (c.process (some [])).control.due = [⟨1, 100, by decide⟩].map Servo.Command.entry :=
    (due_of_single hentries).trans hmoved
  have hfirst := (rehearseFrame_of_ok hpositions).trans (collect_of_due hdue)
  have hrest : (c.process (some [])).control.marked.due = [].map Servo.Command.entry :=
    due_marked hthreshold
  have hsecond : (c.process (some [])).control.marked.rehearseFrame none = _ :=
    (rehearseFrame_of_ok rfl).trans (collect_of_due hrest)
  refine ⟨s, c, hload, haddress, hplayer, ?_⟩
  rw [rehearse_cons_of_ok (congrArg Turn.result hfirst) brief_pause, hfirst,
    rehearse_cons_of_ok (congrArg Turn.result hsecond) brief_pause]
  rfl

/-- A frame without a hand, or with the last hand once more, adds a line to a dry run that
completes, which tells of no change, and leaves the changes of all other frames as they are. The dry
run still completes, unless there was no other frame and the pause after this one cannot be made. -/
theorem redundant_frame_changes_nothing {frames' : String} {before later : List Frame}
    {frame : Frame} (hload : Settings.load tree (Path.ofText settings) = .ok s)
    (hframes : load? tree frames Frame.readAll = some (before ++ later))
    (hframes' : load? tree frames' Frame.readAll = some (before ++ frame :: later))
    (hredundant : Redundant before frame) (address : Option String) (interval : Float)
    (idle : Outcome) (script : List Outcome) :
    let dry := fun frames =>
      ((replay tree frames settings address interval true).run idle script).value
    (dry frames).ending = .ok 0 →
      ∃ earlier further : List (List Servo.Command), earlier.length = before.length ∧
        dry frames = exit 0 (lines ((earlier ++ further).mapIdx changeLine)) ∧
        dry frames' = ofEnding (lines ((earlier ++ [] :: further).mapIdx changeLine))
          ((Dialogue.checkPause interval).mapError .breakdown) ∧
        (before ++ later ≠ [] → (dry frames').ending = .ok 0) ∧
        ∀ i, changeLine i [] = "frame " ++ toString i ++ ": " ++ "(no change)" := by
  intro dry hcompletes
  cases hplayer : player s address with
  | error b =>
    have hcrash : dry frames = crash (.breakdown b) :=
      congrArg (fun d => (d.run idle script).value) (replay_of_error hload hframes hplayer true)
    rw [hcrash] at hcompletes
    cases hcompletes
  | ok c =>
    obtain ⟨-, hthreshold, hfresh⟩ := player_spec hplayer
    have hdry : dry frames = _ := (run_replay_dry hload hframes hplayer idle script).1
    have hdry' : dry frames' = _ := (run_replay_dry hload hframes' hplayer idle script).1
    rw [hdry] at hcompletes
    have hrehearsed : (c.rehearse interval (before ++ later)).2 = .ok () := by
      cases h : (c.rehearse interval (before ++ later)).2 with
      | ok _ => rfl
      | error e =>
        rw [h] at hcompletes
        cases hcompletes
    obtain ⟨earlier, further, hlength, hwithout, hwith, hpauses⟩ :=
      rehearse_insert hthreshold hfresh hredundant hrehearsed
    rw [hwithout] at hdry
    rw [hwith] at hdry'
    refine ⟨earlier, further, hlength, hdry, hdry', fun hne => ?_, changeLine_nil⟩
    rw [hdry', hpauses hne]
    rfl

/-- The first frame comes twice. -/
theorem redundant_frame_changes_nothing_shelf :
    let dry := fun frames => ((replay shelf frames "a.json" none 0.5 true).run default []).value
    ∃ s, Settings.load shelf (Path.ofText "a.json") = .ok s ∧
      load? shelf "once.json" Frame.readAll = some ([some []] ++ [none]) ∧
      load? shelf "twice.json" Frame.readAll = some ([some []] ++ some [] :: [none]) ∧
      Redundant [some []] (some []) ∧ (dry "once.json").ending = .ok 0 ∧
      ∃ earlier further : List (List Servo.Command), earlier.length = 1 ∧
        dry "once.json" = exit 0 (lines ((earlier ++ further).mapIdx changeLine)) ∧
        dry "twice.json" = exit 0 (lines ((earlier ++ [] :: further).mapIdx changeLine)) := by
  intro dry
  obtain ⟨s, c, hload, -, hplayer, hrehearse⟩ := rehearse_shelf
  have honce : load? shelf "once.json" Frame.readAll = some ([some []] ++ [none]) := shelf_frames.1
  have htwice : load? shelf "twice.json" Frame.readAll = some ([some []] ++ some [] :: [none]) :=
    shelf_frames.2
  have hredundant : Redundant [some []] (some []) := by decide
  have hcompletes : (dry "once.json").ending = .ok 0 := by
    have hdry : dry "once.json" = _ := (run_replay_dry hload honce hplayer default []).1
    rw [hdry, List.singleton_append, hrehearse]
    rfl
  obtain ⟨earlier, further, hlength, hwithout, hwith, -⟩ :=
    redundant_frame_changes_nothing hload honce htwice hredundant none 0.5 default [] hcompletes
  rw [brief_pause] at hwith
  exact ⟨s, hload, honce, htwice, hredundant, hcompletes, earlier, further, hlength, hwithout,
    hwith⟩

end RobotHand.CommandLine.Report
