import RobotHand.Proofs.Settings.Identifiers
import RobotHand.Settings.Storage

/-! The control that settings describe, and when both say the same of a servo. -/
namespace RobotHand

namespace Servo

variable {ν α : Type} {t : Table String ν} {u : Table Int ν}

/-- An identifier and its text lead to what looks alike exactly if the text leads to what looks like
the last entry that writes the identifier. -/
theorem get?_byId_alike_iff (h : byId t = .ok u) (id : Int) (view : Option ν → α) :
    view (u.get? id) = view (t.get? (toString id)) ↔
      ∀ e, LastWriting t id e → view (t.get? (toString id)) = view (some e.2) := by
  constructor
  · intro heq e he
    rw [← heq, get?_byId_of_lastWriting h he]
  · intro hlast
    cases hid : u.get? id with
    | none => rw [get?_toString_eq_none h hid]
    | some v =>
      obtain ⟨key, he⟩ := (get?_byId_iff h).1 hid
      exact (hlast _ he).symm

end Servo

namespace Settings

variable {s : Settings} {id : Int}

theorem formula?_of_isShort (h : Integer.isShort id) :
    s.formula? id = .ok (s.formulas.get? (toString id)) := by
  rw [formula?, Integer.write_of_isShort h]
  rfl

theorem formula?_of_not_isShort (h : ¬ Integer.isShort id) :
    s.formula? id = .error .tooLongToWrite := by
  rw [formula?, Integer.write_of_not_isShort h]
  rfl

theorem maximum_of_isShort (h : Integer.isShort id) :
    s.maximum id = .ok (s.maximumUnder (toString id)) := by
  rw [maximum, Integer.write_of_isShort h]
  rfl

theorem maximum_of_not_isShort (h : ¬ Integer.isShort id) :
    s.maximum id = .error .tooLongToWrite := by
  rw [maximum, Integer.write_of_not_isShort h]
  rfl

end Settings

namespace Control

variable {s : Settings} {c : Control}

theorem ofSettings_eq_ok_iff :
    ofSettings s = .ok c ↔ ∃ maxima formulas, Servo.byId s.maxima = .ok maxima ∧
      Servo.byId s.formulas = .ok formulas ∧
      { client := { address := s.address }, threshold := s.threshold, interval := s.interval,
        maxima, formulas } = c := by
  unfold ofSettings Settings.maximaById
  cases Servo.byId s.maxima with
  | error b => simp [bind, Except.bind]
  | ok maxima => cases Servo.byId s.formulas <;> simp [bind, Except.bind, pure, Except.pure]

theorem ofSettings_succeeds_iff :
    (∃ c, ofSettings s = .ok c) ↔
      ∀ key ∈ s.maxima.keys ++ s.formulas.keys, ∃ i, Integer.Writes key i := by
  simp only [ofSettings_eq_ok_iff]
  rw [List.forall_mem_append, ← Servo.byId_succeeds_iff, ← Servo.byId_succeeds_iff]
  constructor
  · rintro ⟨-, maxima, formulas, hmaxima, hformulas, -⟩
    exact ⟨⟨maxima, hmaxima⟩, ⟨formulas, hformulas⟩⟩
  · rintro ⟨⟨maxima, hmaxima⟩, ⟨formulas, hformulas⟩⟩
    exact ⟨_, maxima, formulas, hmaxima, hformulas, rfl⟩

/-- The maxima are read before the formulas. -/
theorem ofSettings_eq_error_iff {b : Breakdown} :
    ofSettings s = .error b ↔ Servo.FirstRefused (s.maxima.keys ++ s.formulas.keys) b := by
  have hbuilt : ofSettings s = .error b ↔ Servo.byId s.maxima = .error b ∨
      (∃ u, Servo.byId s.maxima = .ok u) ∧ Servo.byId s.formulas = .error b := by
    unfold ofSettings Settings.maximaById
    cases Servo.byId s.maxima with
    | error b => simp [bind, Except.bind]
    | ok maxima => cases Servo.byId s.formulas <;> simp [bind, Except.bind, pure, Except.pure]
  rw [hbuilt, Servo.byId_eq_error_iff, Servo.byId_succeeds_iff, Servo.byId_eq_error_iff]
  simp only [Servo.firstRefused_iff, ← Integer.read_eq_ok_iff, ← mapM_eq_ok_iff_forall]
  rw [List.mapM_append, bind_eq_error_iff]
  cases s.formulas.keys.mapM Integer.read <;> simp [bind, Except.bind, pure, Except.pure]

/-- Settings and the control that they describe have the same formula and the same maximum for a
servo exactly if its decimal identifier can be written and leads to the last entry whose key writes
it. That is so where no key writes the identifier in another way. -/
theorem agrees_with_settings_iff (h : ofSettings s = .ok c) (id : Int) :
    (s.formula? id = .ok (c.formulas.get? id) ↔ Integer.isShort id ∧
        ∀ e, Servo.LastWriting s.formulas id e → s.formula? id = .ok (some e.2)) ∧
      (s.maximum id = .ok (c.maximum id) ↔ Integer.isShort id ∧
        ∀ e, Servo.LastWriting s.maxima id e → s.maximum id = .ok e.2) ∧
      (Integer.isShort id →
        (∀ key ∈ s.formulas.keys ++ s.maxima.keys, Integer.Writes key id → key = toString id) →
        s.formula? id = .ok (c.formulas.get? id) ∧ s.maximum id = .ok (c.maximum id)) ∧
      (¬ Integer.isShort id →
        s.formula? id = .error .tooLongToWrite ∧ s.maximum id = .error .tooLongToWrite) := by
  obtain ⟨maxima, formulas, hmaxima, hformulas, rfl⟩ := ofSettings_eq_ok_iff.1 h
  by_cases hid : Integer.isShort id
  · have hformula := Servo.get?_byId_alike_iff hformulas id fun f => f
    have hmaximum := Servo.get?_byId_alike_iff hmaxima id fun m => m.getD Servo.defaultMaximum
    rw [eq_comm] at hformula hmaximum
    rw [Settings.formula?_of_isShort hid, Settings.maximum_of_isShort hid]
    simp only [Except.ok.injEq, hid, true_and, true_imp_iff, not_true_eq_false, false_imp_iff,
      and_true]
    refine ⟨hformula, hmaximum, fun hkeys => ⟨hformula.2 ?_, hmaximum.2 ?_⟩⟩
    · exact fun e he => Servo.get?_toString_of_lastWriting
        (fun key hkey => hkeys key (List.mem_append_left _ hkey)) he
    · intro e he
      rw [Servo.get?_toString_of_lastWriting
        (fun key hkey => hkeys key (List.mem_append_right _ hkey)) he]
  · rw [Settings.formula?_of_not_isShort hid, Settings.maximum_of_not_isShort hid]
    simp [hid]

theorem agrees_with_settings_plain :
    let text := "\x7b\"formulas\":\x7b\"02\":\"5\",\"1\":\"9\"\x7d," ++
      "\"servoMaxValues\":\x7b\"1\":200\x7d\x7d"
    ∃ s, Settings.load (FileTree.empty.put (Path.ofText "a.json") (.file text))
        (Path.ofText "a.json") = .ok s ∧
      ∃ c, ofSettings s = .ok c ∧ s.formula? 1 = .ok (c.formulas.get? 1) ∧
        s.maximum 1 = .ok (c.maximum 1) := by
  intro text
  have hbuilt : ∃ s, Settings.load (FileTree.empty.put (Path.ofText "a.json") (.file text))
      (Path.ofText "a.json") = .ok s ∧
      ∃ c, ofSettings s = .ok c ∧ s.formulas.keys ++ s.maxima.keys = ["02", "1", "1"] := by
    decide +kernel
  have hplain : ∀ key ∈ ["02", "1", "1"], Integer.read key = .ok 1 → key = toString (1 : Int) := by
    decide
  obtain ⟨s, hload, c, hc, hkeys⟩ := hbuilt
  refine ⟨s, hload, c, hc,
    (agrees_with_settings_iff hc 1).2.2.1 (by decide) fun key hkey hwrites => ?_⟩
  rw [hkeys] at hkey
  exact hplain key hkey (Integer.read_eq_ok_iff.2 hwrites)

/-- A control reads every spelling of an identifier, of which settings find one only. -/
theorem respelled_servo_differs :
    let text := "\x7b\"formulas\":\x7b\"01\":\"9\"\x7d," ++
      "\"servoMaxValues\":\x7b\"1\":100,\"01\":200\x7d\x7d"
    ∃ s, Settings.load (FileTree.empty.put (Path.ofText "a.json") (.file text))
        (Path.ofText "a.json") = .ok s ∧
      ∃ c, ofSettings s = .ok c ∧ s.formula? 1 = .ok none ∧ c.formulas.get? 1 = some "9" ∧
        s.maximum 1 = .ok 100 ∧ c.maximum 1 = 200 := by
  decide +kernel

end Control
end RobotHand
