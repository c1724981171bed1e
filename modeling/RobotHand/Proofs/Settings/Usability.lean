import RobotHand.Proofs.Control.Agreement

/-! Which settings give the servos and a control. -/
namespace RobotHand

namespace Servo

open Document

variable {id maximum : Int}

theorem Definition.of_accepted (name : String) (hid : 1 ≤ id) (hmaximum : 0 ≤ maximum) :
    Definition.of id name maximum = .ok ⟨id, name, maximum, hid, hmaximum⟩ := by
  unfold Definition.of checkId checkMaximum Checked.satisfying
  rw [dif_pos hid, dif_pos hmaximum]
  rfl

theorem Definition.of_negative (name : String) (hid : 1 ≤ id) (hmaximum : ¬ 0 ≤ maximum) :
    Definition.of id name maximum = .rejected [⟨.belowMinimum, [.field "max_value"]⟩] := by
  unfold Definition.of checkId checkMaximum Checked.satisfying
  rw [dif_pos hid, dif_neg hmaximum]
  rfl

theorem one_le_id_of_mem_names : ∀ e ∈ names, 1 ≤ e.1 := by decide

end Servo

namespace Settings

open Document Servo

variable {s : Settings}

def servo (s : Settings) (e : Int × String) : Except (List Complaint) Definition :=
  (Definition.of e.1 e.2 (s.maximumUnder (toString e.1))).toExcept

theorem servo_eq_ok_iff {e : Int × String} (he : e ∈ names) {d : Definition} :
    s.servo e = .ok d ↔ 0 ≤ s.maximumUnder (toString e.1) ∧
      (d.id, d.name, d.maximum) = (e.1, e.2, s.maximumUnder (toString e.1)) := by
  have hid := one_le_id_of_mem_names e he
  rw [servo]
  generalize s.maximumUnder (toString e.1) = high
  by_cases hmaximum : 0 ≤ high
  · rw [Definition.of_accepted e.2 hid hmaximum]
    obtain ⟨id, name, maximum, -, -⟩ := d
    simp [Checked.toExcept, hmaximum, eq_comm]
  · rw [Definition.of_negative e.2 hid hmaximum]
    simp [Checked.toExcept, hmaximum]

theorem servo_eq_error_iff {e : Int × String} (he : e ∈ names) {cs : List Complaint} :
    s.servo e = .error cs ↔
      s.maximumUnder (toString e.1) < 0 ∧ cs = [⟨.belowMinimum, [.field "max_value"]⟩] := by
  have hid := one_le_id_of_mem_names e he
  rw [servo, ← not_le]
  generalize s.maximumUnder (toString e.1) = high
  by_cases hmaximum : 0 ≤ high
  · rw [Definition.of_accepted e.2 hid hmaximum]
    simp [Checked.toExcept, hmaximum]
  · rw [Definition.of_negative e.2 hid hmaximum]
    simp [Checked.toExcept, hmaximum, eq_comm]

theorem servos_succeeds_iff :
    (∃ l, s.servos = .ok l) ↔ ∀ e ∈ names, 0 ≤ s.maximumUnder (toString e.1) := by
  change (∃ l, names.mapM s.servo = .ok l) ↔ _
  rw [mapM_eq_ok_iff_forall]
  refine forall₂_congr fun e he => ⟨fun ⟨d, hd⟩ => ((servo_eq_ok_iff he).1 hd).1, ?_⟩
  intro hmaximum
  have hid := one_le_id_of_mem_names e he
  exact ⟨⟨e.1, e.2, s.maximumUnder (toString e.1), hid, hmaximum⟩,
    (servo_eq_ok_iff he).2 ⟨hmaximum, rfl⟩⟩

theorem map_servos {l : List Definition} (h : s.servos = .ok l) :
    l.map (fun d => (d.id, d.name, d.maximum)) =
      names.map fun e => (e.1, e.2, s.maximumUnder (toString e.1)) := by
  have hpart : ∀ e ∈ names, ∀ d, s.servo e = .ok d →
      (d.id, d.name, d.maximum) = (e.1, e.2, s.maximumUnder (toString e.1)) :=
    fun e he d hd => ((servo_eq_ok_iff he).1 hd).2
  exact map_of_mapM h hpart

theorem servos_eq_error_iff {cs : List Complaint} :
    s.servos = .error cs ↔ (∃ e ∈ names, s.maximumUnder (toString e.1) < 0) ∧
      cs = [⟨.belowMinimum, [.field "max_value"]⟩] := by
  have hfailure : ∀ {cs}, s.servos = .error cs →
      (∃ e ∈ names, s.maximumUnder (toString e.1) < 0) ∧
        cs = [⟨.belowMinimum, [.field "max_value"]⟩] := by
    intro cs h
    obtain ⟨before, e, after, hnames, -, he⟩ := mapM_eq_error_iff.1 h
    have hmem : e ∈ names := hnames ▸ List.mem_append_right before List.mem_cons_self
    obtain ⟨hmaximum, hcs⟩ := (servo_eq_error_iff hmem).1 he
    exact ⟨⟨e, hmem, hmaximum⟩, hcs⟩
  refine ⟨hfailure, ?_⟩
  rintro ⟨⟨e, he, hmaximum⟩, rfl⟩
  cases hservos : s.servos with
  | ok l => exact absurd (servos_succeeds_iff.1 ⟨l, hservos⟩ e he) (not_le.2 hmaximum)
  | error cs => rw [(hfailure hservos).2]

/-- Settings give the definitions of all known servos exactly if none of these has a negative
maximum, and a control exactly if every key writes an integer; else they fail at the first servo and
at the first key that is not so. -/
theorem usable_iff (s : Settings) :
    ((∃ l, s.servos = .ok l) ↔ ∀ e ∈ names, 0 ≤ s.maximumUnder (toString e.1)) ∧
      (∀ l, s.servos = .ok l → l.map (fun d => (d.id, d.name, d.maximum)) =
        names.map fun e => (e.1, e.2, s.maximumUnder (toString e.1))) ∧
      (∀ cs, s.servos = .error cs ↔ (∃ e ∈ names, s.maximumUnder (toString e.1) < 0) ∧
        cs = [⟨.belowMinimum, [.field "max_value"]⟩]) ∧
      ((∃ c, Control.ofSettings s = .ok c) ↔
        ∀ key ∈ s.maxima.keys ++ s.formulas.keys, ∃ i, Integer.Writes key i) ∧
      (∀ b, Control.ofSettings s = .error b ↔
        FirstRefused (s.maxima.keys ++ s.formulas.keys) b) :=
  ⟨servos_succeeds_iff, fun _ => map_servos, fun _ => servos_eq_error_iff,
    Control.ofSettings_succeeds_iff, fun _ => Control.ofSettings_eq_error_iff⟩

/-- Negative maxima and keys that write no integer are loaded all the same. -/
theorem unusable_settings_are_loaded :
    let loaded := fun text =>
      load (FileTree.empty.put (Path.ofText "a.json") (.file text)) (Path.ofText "a.json")
    (∃ s, loaded "\x7b\"servoMaxValues\":\x7b\"1\":-5\x7d\x7d" = .ok s ∧
      s.servos = .error [⟨.belowMinimum, [.field "max_value"]⟩]) ∧
    ∃ s, loaded "\x7b\"servoMaxValues\":\x7b\"wrist\":5\x7d\x7d" = .ok s ∧
      Control.ofSettings s = .error (.notInteger "'wrist'") := by
  intro loaded
  refine ⟨by decide +kernel, ?_⟩
  have hkeys : ∃ s, loaded "\x7b\"servoMaxValues\":\x7b\"wrist\":5\x7d\x7d" = .ok s ∧
      s.maxima.keys ++ s.formulas.keys = ["wrist"] := by decide +kernel
  have hwrist : Integer.read "wrist" = .error (.notInteger "'wrist'") := by decide +kernel
  obtain ⟨s, hload, hkeys⟩ := hkeys
  refine ⟨s, hload, Control.ofSettings_eq_error_iff.2 ⟨[], "wrist", [], hkeys, ?_, hwrist⟩⟩
  exact fun _ h => absurd h List.not_mem_nil

end Settings
end RobotHand
