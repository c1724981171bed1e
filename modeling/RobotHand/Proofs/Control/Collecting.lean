import RobotHand.Control.Steering
import RobotHand.Proofs.Double.Bounds
import RobotHand.Proofs.Tables

/-! What a collection gives and marks, and when it fails. -/
namespace RobotHand

namespace Servo.Command

/-- The servo of a command with the position that it is to take. -/
def entry (command : Command) : Int × Int := (command.id, command.position)

theorem entry_injective : Function.Injective entry := by
  rintro ⟨id, position, h⟩ ⟨id', position', h'⟩ heq
  cases heq
  rfl

theorem of_valid {id : Int} (h : 1 ≤ id) (position : Int) :
    (Command.of id position).toExcept = .ok ⟨id, position, h⟩ := by
  simp only [Command.of, checkId, Document.Checked.satisfying, dif_pos h]
  rfl

theorem of_invalid {id : Int} (h : ¬ 1 ≤ id) (position : Int) :
    (Command.of id position).toExcept = .error [⟨.belowMinimum, [.field "id"]⟩] := by
  simp only [Command.of, checkId, Document.Checked.satisfying, dif_neg h]
  rfl

end Servo.Command

namespace Control

def moved (c : Control) (l : List (Int × Int)) : List (Int × Int) :=
  l.filter fun e => c.hasMoved e.1 e.2

/-- The servos that have moved, in ascending order, with their positions. -/
def due (c : Control) : List (Int × Int) := c.moved c.ascending

def marked (c : Control) : Control := { c with sent := c.sent.putAll c.due }

theorem nodup_keys_ascending (c : Control) : (c.ascending.map Prod.fst).Nodup :=
  ((List.mergeSort_perm _ _).map Prod.fst).nodup_iff.2 c.calculated.nodup_keys

/-- The order is strict, as every servo has one position. -/
theorem pairwise_ascending (c : Control) : c.ascending.Pairwise fun a b => a.1 < b.1 := by
  have hle : c.ascending.Pairwise fun a b => decide (a.1 ≤ b.1) = true := by
    apply List.pairwise_mergeSort
    · intro a b d hab hbd
      have hab := of_decide_eq_true hab
      have hbd := of_decide_eq_true hbd
      exact decide_eq_true (by omega)
    · intro a b
      rw [Bool.or_eq_true, decide_eq_true_iff, decide_eq_true_iff]
      exact Int.le_total a.1 b.1
  have hne := List.pairwise_map.1 c.nodup_keys_ascending
  refine (hle.and hne).imp fun {a b} h => ?_
  have hab := of_decide_eq_true h.1
  have hdistinct := h.2
  omega

theorem mem_ascending {c : Control} {e : Int × Int} :
    e ∈ c.ascending ↔ c.calculated.get? e.1 = some e.2 :=
  List.mem_mergeSort.trans Table.get?_eq_some_iff.symm

theorem mem_due {c : Control} {e : Int × Int} :
    e ∈ c.due ↔ c.calculated.get? e.1 = some e.2 ∧ c.hasMoved e.1 e.2 := by
  rw [due, moved, List.mem_filter, mem_ascending]

theorem nodup_keys_due (c : Control) : (c.due.map Prod.fst).Nodup :=
  (List.filter_sublist.map Prod.fst).nodup c.nodup_keys_ascending

/-- Marking one servo as sent does not tell whether another has moved. -/
theorem hasMoved_put {c : Control} {id id' : Int} (h : id ≠ id') (position position' : Int) :
    { c with sent := c.sent.put id position }.hasMoved id' position' =
      c.hasMoved id' position' := by
  simp only [hasMoved, Table.get?_put, if_neg h]

/-- A collection fails on a servo that has moved and has no valid identifier, and then nothing is
marked, since such servos come first. Otherwise all that have moved are given and marked. -/
theorem collectFrom_cases {l : List (Int × Int)} (hl : l.Pairwise fun a b => a.1 < b.1)
    (c : Control) :
    (∃ complaints, (∃ e ∈ c.moved l, e.1 < 1) ∧
      c.collectFrom l = ⟨c, [], .error (.invalidCommand complaints)⟩) ∨
    ∃ commands, commands.map Servo.Command.entry = c.moved l ∧
      c.collectFrom l = ⟨{ c with sent := c.sent.putAll (c.moved l) }, [], .ok commands⟩ := by
  induction l generalizing c with
  | nil => exact .inr ⟨[], rfl, rfl⟩
  | cons e l ih =>
    obtain ⟨id, position⟩ := e
    obtain ⟨hlt, hl⟩ := List.pairwise_cons.1 hl
    have hcons : c.moved ((id, position) :: l) =
        if c.hasMoved id position then (id, position) :: c.moved l else c.moved l :=
      List.filter_cons
    rw [collectFrom, hcons]
    by_cases hmoved : c.hasMoved id position
    · rw [if_pos hmoved, if_pos hmoved]
      by_cases hid : 1 ≤ id
      · rw [Servo.Command.of_valid hid]
        have hrest : { c with sent := c.sent.put id position }.moved l = c.moved l := by
          refine List.filter_congr fun e he => hasMoved_put ?_ _ _
          have := hlt e he
          omega
        rcases ih hl { c with sent := c.sent.put id position } with
          ⟨complaints, ⟨e, he, hinvalid⟩, -⟩ | ⟨commands, hcommands, hcollect⟩
        · -- The rest has greater identifiers, which are valid too.
          have := hlt e (List.mem_filter.1 he).1
          omega
        · rw [hrest] at hcommands hcollect
          refine .inr ⟨⟨id, position, hid⟩ :: commands, ?_, ?_⟩
          · rw [List.map_cons, hcommands]
            rfl
          · dsimp only
            rw [hcollect]
            rfl
      · rw [Servo.Command.of_invalid hid]
        exact .inl ⟨_, ⟨_, List.mem_cons_self, by omega⟩, rfl⟩
    · rw [if_neg hmoved, if_neg hmoved]
      exact ih hl c

theorem collect_cases (c : Control) :
    (∃ complaints, (∃ e ∈ c.due, e.1 < 1) ∧
      c.collect = ⟨c, [], .error (.invalidCommand complaints)⟩) ∨
    ∃ commands, commands.map Servo.Command.entry = c.due ∧
      c.collect = ⟨c.marked, [], .ok commands⟩ :=
  collectFrom_cases c.pairwise_ascending c

/-- A collection fails exactly when a servo without a valid identifier has moved. -/
theorem collect_fails_iff {c : Control} :
    (∃ e, c.collect.result = .error e) ↔ ∃ e ∈ c.due, e.1 < 1 := by
  rcases c.collect_cases with ⟨complaints, hinvalid, h⟩ | ⟨commands, hcommands, h⟩
  · rw [h]
    exact ⟨fun _ => hinvalid, fun _ => ⟨_, rfl⟩⟩
  · rw [h]
    refine ⟨nofun, fun ⟨e, he, hinvalid⟩ => ?_⟩
    obtain ⟨command, -, hentry⟩ := List.mem_map.1 (hcommands ▸ he)
    have hid : 1 ≤ e.1 := hentry ▸ command.one_le_id
    omega

/-- A collection fails on an identifier and on nothing else. -/
theorem collectFrom_eq_error {c : Control} {l : List (Int × Int)} {e : Fault}
    (h : (c.collectFrom l).result = .error e) :
    e = .invalidCommand [⟨.belowMinimum, [.field "id"]⟩] := by
  induction l generalizing c with
  | nil => cases h
  | cons entry l ih =>
    obtain ⟨id, position⟩ := entry
    rw [collectFrom] at h
    split at h
    · by_cases hid : 1 ≤ id
      · rw [Servo.Command.of_valid hid] at h
        change ({ c with sent := c.sent.put id position }.collectFrom l).result.map _ = _ at h
        cases hrest : ({ c with sent := c.sent.put id position }.collectFrom l).result with
        | error e' =>
          rw [hrest] at h
          cases h
          exact ih hrest
        | ok commands =>
          rw [hrest] at h
          cases h
      · rw [Servo.Command.of_invalid hid] at h
        exact (Except.error.inj h).symm
    · exact ih h

/-- A failed collection changes nothing. -/
theorem collect_of_error {c : Control} {e : Fault} (h : c.collect.result = .error e) :
    c.collect = ⟨c, [], .error (.invalidCommand [⟨.belowMinimum, [.field "id"]⟩])⟩ := by
  have hfault := collectFrom_eq_error h
  rcases c.collect_cases with ⟨complaints, -, hcollect⟩ | ⟨commands, -, hcollect⟩
  · rw [hcollect] at h ⊢
    rw [← hfault, Except.error.inj h]
  · rw [hcollect] at h
    cases h

theorem entries_of_collect {c : Control} {commands : List Servo.Command}
    (h : c.collect.result = .ok commands) : commands.map Servo.Command.entry = c.due := by
  rcases c.collect_cases with ⟨complaints, -, hcollect⟩ | ⟨commands', hcommands, hcollect⟩
  · rw [hcollect] at h
    cases h
  · rw [hcollect] at h
    rw [← Except.ok.inj h, hcommands]

/-- If commands fit what has moved, they are what a collection gives. -/
theorem collect_of_due {c : Control} {commands : List Servo.Command}
    (h : c.due = commands.map Servo.Command.entry) :
    c.collect = ⟨c.marked, [], .ok commands⟩ := by
  rcases c.collect_cases with ⟨complaints, ⟨e, he, hlt⟩, -⟩ | ⟨commands', hcommands, hcollect⟩
  · rw [h] at he
    obtain ⟨command, -, rfl⟩ := List.mem_map.1 he
    have hid : 1 ≤ command.entry.1 := command.one_le_id
    omega
  · have hsame : commands' = commands :=
      List.map_injective_iff.2 Servo.Command.entry_injective (hcommands.trans h)
    rw [hcollect, hsame]

theorem due_of_single {c : Control} {e : Int × Int} (h : c.calculated.entries = [e]) :
    c.due = c.moved [e] := by
  rw [due, ascending, h, List.mergeSort_singleton]

theorem not_hasMoved_of_sent {c : Control} {id position : Int} (hthreshold : 0 ≤ c.threshold)
    (h : c.sent.get? id = some position) : ¬ c.hasMoved id position := by
  have hzero := Binary64.natLe_zero_iff.2 hthreshold
  simp [hasMoved, h, hzero]

theorem hasMoved_marked_of_not_mem {c : Control} {e : Int × Int} (he : e ∈ c.ascending)
    (h : e ∉ c.due) : c.marked.hasMoved e.1 e.2 = c.hasMoved e.1 e.2 := by
  have hkey : e.1 ∉ c.due.map Prod.fst := by
    intro hkey
    obtain ⟨e', he', heq⟩ := List.mem_map.1 hkey
    have hget := (mem_due.1 he').1
    rw [heq, mem_ascending.1 he] at hget
    exact h (Prod.ext heq (Option.some.inj hget).symm ▸ he')
  have hsent : c.marked.sent.get? e.1 = c.sent.get? e.1 :=
    Table.get?_putAll_of_not_mem hkey c.sent
  change (!(Binary64.ofFloat c.threshold).natLe
    (e.2 - (c.marked.sent.get? e.1).getD 0).natAbs) = _
  rw [hsent]
  rfl

/-- Once all servos that have moved are marked, none has moved. -/
theorem due_marked {c : Control} (h : 0 ≤ c.threshold) : c.marked.due = [] := by
  apply List.filter_eq_nil_iff.2
  intro e hmem
  have he : e ∈ c.ascending := hmem
  by_cases hdue : e ∈ c.due
  · have hsent : c.marked.sent.get? e.1 = some e.2 :=
      Table.get?_putAll_of_mem c.nodup_keys_due hdue c.sent
    have hthreshold : 0 ≤ c.marked.threshold := h
    exact not_hasMoved_of_sent hthreshold hsent
  · rw [hasMoved_marked_of_not_mem he hdue]
    exact fun hmoved => hdue (mem_due.2 ⟨mem_ascending.1 he, hmoved⟩)

end Control
end RobotHand
