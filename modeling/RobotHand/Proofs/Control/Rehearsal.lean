import RobotHand.Control.Replay
import RobotHand.Proofs.Control.Effects
import RobotHand.Proofs.Control.Evaluating

/-! What a recording leads to, frame by frame, and which frames lead to nothing. -/
namespace RobotHand.Control

variable {c now : Control} {frame : Frame} {frames before later : List Frame}
  {hand : List Landmark} {commands : List Servo.Command} {seconds : Float}

theorem process_of_error {b : Breakdown} (h : c.positionsOn hand = .error b) :
    c.process (some hand) = ⟨c, [], .error (.breakdown b)⟩ := by
  rw [process]
  dsimp only
  rw [h]

theorem process_of_ok {positions : List (Int × Int)} (h : c.positionsOn hand = .ok positions) :
    c.process (some hand) = ⟨{ c with calculated := c.calculated.putAll positions },
      [.calculated (c.calculated.putAll positions)], .ok (c.calculated.putAll positions)⟩ := by
  rw [process]
  dsimp only
  rw [h]

/-- What one frame of a recording leads to. -/
def rehearseFrame (c : Control) (frame : Frame) : Turn (List Servo.Command) :=
  match (c.process frame).result with
  | .error e => ⟨c, [], .error e⟩
  | .ok _ => (c.process frame).control.collect

theorem rehearseFrame_of_error {e : Fault} (h : (c.process frame).result = .error e) :
    c.rehearseFrame frame = ⟨c, [], .error e⟩ := by
  rw [rehearseFrame, h]

theorem rehearseFrame_of_ok {positions : Table Int Int}
    (h : (c.process frame).result = .ok positions) :
    c.rehearseFrame frame = (c.process frame).control.collect := by
  rw [rehearseFrame, h]

theorem rehearse_cons_of_error {e : Fault} (h : (c.rehearseFrame frame).result = .error e) :
    c.rehearse seconds (frame :: frames) = ([], .error e) := by
  rw [rehearse]
  dsimp only
  cases hprocess : (c.process frame).result with
  | error e' =>
    rw [rehearseFrame_of_error hprocess] at h
    cases h
    rfl
  | ok positions =>
    rw [rehearseFrame_of_ok hprocess] at h
    dsimp only
    rw [h]

/-- The pause after a frame ends the rehearsal or lets it go on. -/
theorem rehearse_cons (h : (c.rehearseFrame frame).result = .ok commands) :
    c.rehearse seconds (frame :: frames) =
      match Dialogue.checkPause seconds with
      | .error e => ([commands], .error (.breakdown e))
      | .ok _ => (commands :: ((c.rehearseFrame frame).control.rehearse seconds frames).1,
          ((c.rehearseFrame frame).control.rehearse seconds frames).2) := by
  rw [rehearse]
  dsimp only
  cases hprocess : (c.process frame).result with
  | error e =>
    rw [rehearseFrame_of_error hprocess] at h
    cases h
  | ok positions =>
    rw [rehearseFrame_of_ok hprocess] at h ⊢
    dsimp only
    cases hcollect : (c.process frame).control.collect.result with
    | error e => cases hcollect.symm.trans h
    | ok found =>
      cases hcollect.symm.trans h
      rfl

theorem rehearse_cons_of_ok (h : (c.rehearseFrame frame).result = .ok commands)
    (hpause : Dialogue.checkPause seconds = .ok ()) :
    c.rehearse seconds (frame :: frames) =
      (commands :: ((c.rehearseFrame frame).control.rehearse seconds frames).1,
        ((c.rehearseFrame frame).control.rehearse seconds frames).2) := by
  rw [rehearse_cons h, hpause]

theorem rehearse_cons_of_pause {e : Breakdown} (h : (c.rehearseFrame frame).result = .ok commands)
    (hpause : Dialogue.checkPause seconds = .error e) :
    c.rehearse seconds (frame :: frames) = ([commands], .error (.breakdown e)) := by
  rw [rehearse_cons h, hpause]

/-- A recording of one frame or more is rehearsed to its end only if the pauses can be made. -/
theorem rehearse_cons_ok (h : (c.rehearse seconds (frame :: frames)).2 = .ok ()) :
    (∃ commands, (c.rehearseFrame frame).result = .ok commands) ∧
      Dialogue.checkPause seconds = .ok () ∧
      ((c.rehearseFrame frame).control.rehearse seconds frames).2 = .ok () := by
  cases hframe : (c.rehearseFrame frame).result with
  | error e =>
    rw [rehearse_cons_of_error hframe] at h
    cases h
  | ok commands =>
    cases hpause : Dialogue.checkPause seconds with
    | error e =>
      rw [rehearse_cons_of_pause hframe hpause] at h
      cases h
    | ok _ =>
      rw [rehearse_cons_of_ok hframe hpause] at h
      exact ⟨⟨commands, rfl⟩, rfl, h⟩

def rehearsed (c : Control) (frames : List Frame) : Control :=
  frames.foldl (fun c frame => (c.rehearseFrame frame).control) c

/-- A recording that is rehearsed to its end can be gone on with. -/
theorem rehearse_append (h : (c.rehearse seconds before).2 = .ok ()) (later : List Frame) :
    c.rehearse seconds (before ++ later) =
      ((c.rehearse seconds before).1 ++ ((c.rehearsed before).rehearse seconds later).1,
        ((c.rehearsed before).rehearse seconds later).2) := by
  induction before generalizing c with
  | nil => rfl
  | cons frame before ih =>
    obtain ⟨⟨commands, hframe⟩, hpause, hrest⟩ := rehearse_cons_ok h
    rw [List.cons_append, rehearse_cons_of_ok hframe hpause, rehearse_cons_of_ok hframe hpause,
      ih hrest]
    rfl

/-- A failure ends the rehearsal. -/
theorem rehearse_append_of_error {e : Fault} (h : (c.rehearse seconds before).2 = .error e)
    (later : List Frame) : c.rehearse seconds (before ++ later) = c.rehearse seconds before := by
  induction before generalizing c with
  | nil => cases h
  | cons frame before ih =>
    rw [List.cons_append]
    cases hframe : (c.rehearseFrame frame).result with
    | error e => rw [rehearse_cons_of_error hframe, rehearse_cons_of_error hframe]
    | ok commands =>
      rw [rehearse_cons hframe] at h
      rw [rehearse_cons hframe, rehearse_cons hframe]
      cases hpause : Dialogue.checkPause seconds with
      | error e => rfl
      | ok _ =>
        rw [hpause] at h
        dsimp only at h ⊢
        rw [ih h]

/-- A recording that is rehearsed to its end leads to one list of commands for each frame. -/
theorem length_rehearse (h : (c.rehearse seconds frames).2 = .ok ()) :
    (c.rehearse seconds frames).1.length = frames.length := by
  induction frames generalizing c with
  | nil => rfl
  | cons frame frames ih =>
    obtain ⟨⟨commands, hframe⟩, hpause, hrest⟩ := rehearse_cons_ok h
    rw [rehearse_cons_of_ok hframe hpause]
    exact congrArg (· + 1) (ih hrest)

/-- The beginning of a recording leads to the beginning of what the recording leads to. It fails
only if it reaches the failure of the recording, which may be that of the first pause. -/
theorem rehearse_take (c : Control) (seconds : Float) (frames : List Frame) (n : Nat) :
    c.rehearse seconds (frames.take n) = ((c.rehearse seconds frames).1.take n,
      if n = 0 ∨ n ≤ (c.rehearse seconds frames).1.length ∧ Dialogue.checkPause seconds = .ok ()
      then .ok () else (c.rehearse seconds frames).2) := by
  induction frames generalizing c n with
  | nil => simp [rehearse]
  | cons frame frames ih =>
    cases n with
    | zero => simp [rehearse]
    | succ n =>
      rw [List.take_succ_cons]
      cases hframe : (c.rehearseFrame frame).result with
      | error e =>
        rw [rehearse_cons_of_error hframe, rehearse_cons_of_error hframe]
        simp
      | ok commands =>
        cases hpause : Dialogue.checkPause seconds with
        | error e =>
          rw [rehearse_cons_of_pause hframe hpause, rehearse_cons_of_pause hframe hpause]
          simp
        | ok _ =>
          have hnone : ∀ k, n = 0 ∨ n ≤ k ↔ n ≤ k :=
            fun k => or_iff_right_of_imp fun h => h ▸ Nat.zero_le k
          rw [rehearse_cons_of_ok hframe hpause, rehearse_cons_of_ok hframe hpause, ih]
          simp [hpause, hnone]

/-- If a recording is rehearsed to its end, so is every beginning of it. -/
theorem rehearse_of_append (h : (c.rehearse seconds (before ++ later)).2 = .ok ()) :
    (c.rehearse seconds before).2 = .ok () := by
  have htake := congrArg Prod.snd (c.rehearse_take seconds (before ++ later) before.length)
  rwa [List.take_left, h, ite_self] at htake

def lastHand (frames : List Frame) : Frame := (frames.filterMap fun frame => frame).getLast?

/-- A frame without a hand, or with the same hand as the last one before it. -/
def Redundant (before : List Frame) (frame : Frame) : Prop := frame = none ∨ frame = lastHand before

instance : DecidableEq Landmark := fun a b =>
  decidable_of_iff (a.screen = b.screen ∧ a.world = b.world ∧ a.name = b.name) (by
    cases a
    cases b
    simp)

instance : Decidable (Redundant before frame) :=
  inferInstanceAs (Decidable (frame = none ∨ frame = lastHand before))

theorem lastHand_concat_none (before : List Frame) :
    lastHand (before ++ [none]) = lastHand before := by
  simp [lastHand]

theorem lastHand_concat_some (before : List Frame) (hand : List Landmark) :
    lastHand (before ++ [some hand]) = some hand := by
  simp [lastHand]

/-- After some frames, nothing is left to collect, and the last hand would give the same positions
again. -/
structure AtRest (before : List Frame) (now : Control) : Prop where
  threshold : 0 ≤ now.threshold
  due : now.due = []
  settled : ∀ hand, lastHand before = some hand → ∃ positions,
    now.positionsOn hand = .ok positions ∧ now.calculated.putAll positions = now.calculated

theorem AtRest.start (hthreshold : 0 ≤ c.threshold) (hfresh : c.calculated = .empty) :
    AtRest [] c := by
  refine ⟨hthreshold, ?_, fun hand h => ?_⟩
  · rw [List.eq_nil_iff_forall_not_mem]
    intro e he
    have hget := (mem_due.1 he).1
    rw [hfresh] at hget
    cases hget
  · cases h

/-- A redundant frame leads to nothing. -/
theorem AtRest.redundant (h : AtRest before now) (hframe : Redundant before frame) :
    now.rehearseFrame frame = ⟨now, [], .ok []⟩ := by
  have hcollect : now.collect = ⟨now, [], .ok []⟩ := by
    have hdue : now.due = [].map Servo.Command.entry := h.due
    rw [collect_of_due hdue, marked_of_idle h.due]
  cases frame with
  | none => exact hcollect
  | some hand =>
    obtain ⟨positions, hpositions, hsame⟩ := h.settled hand (hframe.resolve_left nofun).symm
    have hprocess := process_of_ok hpositions
    rw [hsame] at hprocess
    rw [rehearseFrame_of_ok (congrArg Turn.result hprocess), hprocess]
    exact hcollect

/-- Every frame that is rehearsed leads to rest. -/
theorem AtRest.snoc (h : AtRest before now)
    (hframe : (now.rehearseFrame frame).result = .ok commands) :
    AtRest (before ++ [frame]) (now.rehearseFrame frame).control := by
  cases frame with
  | none =>
    have hcollect : now.collect = _ := collect_of_due (entries_of_collect hframe).symm
    have hcontrol : (now.rehearseFrame none).control = now.marked := congrArg Turn.control hcollect
    rw [hcontrol]
    exact ⟨h.threshold, due_marked h.threshold, fun hand hhand =>
      h.settled hand (lastHand_concat_none before ▸ hhand)⟩
  | some hand =>
    cases hpositions : now.positionsOn hand with
    | error e =>
      rw [rehearseFrame_of_error (congrArg Turn.result (process_of_error hpositions))] at hframe
      cases hframe
    | ok positions =>
      have hprocess := process_of_ok hpositions
      rw [rehearseFrame_of_ok (congrArg Turn.result hprocess), hprocess] at hframe ⊢
      rw [collect_of_due (entries_of_collect hframe).symm]
      refine ⟨h.threshold, due_marked h.threshold, fun hand' hhand => ?_⟩
      rw [lastHand_concat_some] at hhand
      cases hhand
      refine ⟨positions, hpositions, Table.putAll_eq_self fun e he => ?_⟩
      exact Table.get?_putAll_of_mem (nodup_keys_positionsOn hpositions) he now.calculated

/-- A fresh control is at rest after every recording that is rehearsed to its end. -/
theorem AtRest.after (hthreshold : 0 ≤ c.threshold) (hfresh : c.calculated = .empty)
    (h : (c.rehearse seconds before).2 = .ok ()) : AtRest before (c.rehearsed before) := by
  -- The last frame decides what the last hand is, so it is taken off first.
  induction before using List.reverseRecOn with
  | nil => exact .start hthreshold hfresh
  | append_singleton before frame ih =>
    have hbefore := rehearse_of_append h
    rw [rehearse_append hbefore] at h
    rw [rehearsed, List.foldl_append]
    cases hframe : ((c.rehearsed before).rehearseFrame frame).result with
    | error e =>
      rw [rehearse_cons_of_error hframe] at h
      cases h
    | ok commands => exact (ih hbefore).snoc hframe

/-- A redundant frame adds an empty list of commands to what a recording leads to, and nothing
else. If it is the only frame, the pause after it is the only one. -/
theorem rehearse_insert (hthreshold : 0 ≤ c.threshold) (hfresh : c.calculated = .empty)
    (hframe : Redundant before frame) (h : (c.rehearse seconds (before ++ later)).2 = .ok ()) :
    ∃ earlier further, earlier.length = before.length ∧
      c.rehearse seconds (before ++ later) = (earlier ++ further, .ok ()) ∧
      c.rehearse seconds (before ++ frame :: later) =
        (earlier ++ [] :: further, (Dialogue.checkPause seconds).mapError .breakdown) ∧
      (before ++ later ≠ [] → Dialogue.checkPause seconds = .ok ()) := by
  have hbefore : (c.rehearse seconds before).2 = .ok () := rehearse_of_append h
  have hrest : AtRest before (c.rehearsed before) := .after hthreshold hfresh hbefore
  have hnothing : (c.rehearsed before).rehearseFrame frame = ⟨c.rehearsed before, [], .ok []⟩ :=
    hrest.redundant hframe
  have hresult := congrArg Turn.result hnothing
  have hpauses : before ++ later ≠ [] → Dialogue.checkPause seconds = .ok () := by
    intro hne
    obtain ⟨first, rest, heq⟩ := List.exists_cons_of_ne_nil hne
    rw [heq] at h
    exact (rehearse_cons_ok h).2.1
  have hwhole := rehearse_append hbefore later
  rw [hwhole] at h
  refine ⟨(c.rehearse seconds before).1, ((c.rehearsed before).rehearse seconds later).1,
    length_rehearse hbefore, ?_, ?_, hpauses⟩
  · rw [hwhole]
    exact congrArg (Prod.mk _) h
  · rw [rehearse_append hbefore, rehearse_cons hresult, hnothing]
    cases hpause : Dialogue.checkPause seconds with
    | ok _ => exact congrArg (Prod.mk _) h
    | error e =>
      -- Only a recording without frames is rehearsed to its end if no pause can be made.
      have hnone : before ++ later = [] := by
        by_contra hne
        cases (hpauses hne).symm.trans hpause
      obtain ⟨-, rfl⟩ := List.append_eq_nil_iff.1 hnone
      rfl

end RobotHand.Control
