import RobotHand.CommandLine.Report
import RobotHand.Proofs.Control.Gates
import RobotHand.Proofs.Settings.Usability

/-! Which formulas of a settings file decide how the check of the file ends. -/
namespace RobotHand

namespace Formula

variable {s : Settings} {key text : String}

theorem errorMessage_of_not_validate (h : ¬ validate (some text)) :
    ∃ message, errorMessage? (some text) = some message := by
  cases hmessage : errorMessage? (some text) with
  | none => exact absurd (validate_iff.2 (errorMessage_eq_none_iff.1 hmessage)) h
  | some message => exact ⟨message, rfl⟩

theorem mem_keys_invalidFormulas_iff :
    key ∈ s.invalidFormulas.map Prod.fst ↔
      ∃ text, s.formulas.get? key = some text ∧ ¬ isBlankText text ∧ ¬ validate (some text) := by
  constructor
  · intro hmem
    obtain ⟨⟨key, message⟩, hreport, rfl⟩ := List.mem_map.1 hmem
    obtain ⟨text, hget, hblank, hinvalid, -⟩ := mem_invalidFormulas_iff.1 hreport
    exact ⟨text, hget, hblank, hinvalid⟩
  · rintro ⟨text, hget, hblank, hinvalid⟩
    obtain ⟨message, hmessage⟩ := errorMessage_of_not_validate hinvalid
    have hreport := mem_invalidFormulas_iff.2 ⟨text, hget, hblank, hinvalid, hmessage⟩
    exact List.mem_map_of_mem hreport

/-- Settings report nothing exactly if each of their formulas is blank or passes. -/
theorem invalidFormulas_eq_nil_iff :
    s.invalidFormulas = [] ↔
      ∀ e ∈ s.formulas.entries, isBlankText e.2 ∨ validate (some e.2) := by
  rw [← List.map_eq_nil_iff (f := Prod.fst), List.eq_nil_iff_forall_not_mem]
  simp only [mem_keys_invalidFormulas_iff, Table.get?_eq_some_iff]
  constructor
  · intro hnone e he
    by_contra hfails
    rw [not_or] at hfails
    exact hnone e.1 ⟨e.2, he, hfails⟩
  · rintro hall key ⟨text, hmem, hblank, hinvalid⟩
    exact (hall _ hmem).elim hblank hinvalid

end Formula

def Servo.knownIds : List Int := names.map Prod.fst

namespace CommandLine.Report

open Formula Document
open Servo (knownIds)

variable {s : Settings} {id : Int} {tree : FileTree} {path : String}

theorem status_eq_zero_iff {flags : List Bool} :
    status flags = 0 ↔ ∀ flag ∈ flags, flag = true := by
  rw [status]
  split
  · next h => simpa using h
  · next h => simpa using h

theorem status_eq_one_iff {flags : List Bool} :
    status flags = 1 ↔ ∃ flag ∈ flags, flag = false := by
  rw [status]
  split
  · next h => simpa using h
  · next h => simpa using h

theorem verdict_flag (formula : String) :
    (verdict formula).1 = Formula.validate (some formula) := by
  unfold verdict
  split
  · next h => exact (validate_iff.2 (errorMessage_eq_none_iff.1 h)).symm
  · next message h =>
    have hinvalid : ¬ Formula.validate (some formula) := fun hvalid => by
      rw [errorMessage_eq_none_iff.2 (validate_iff.1 hvalid)] at h
      cases h
    exact (Bool.eq_false_of_not_eq_true hinvalid).symm

/-- The verdict on a servo is bad exactly if its formula is reported under its decimal
identifier. -/
theorem servoVerdict_flag_iff :
    (servoVerdict s id).1 = false ↔ toString id ∈ s.invalidFormulas.map Prod.fst := by
  rw [mem_keys_invalidFormulas_iff, servoVerdict]
  cases s.formulas.get? (toString id) with
  | none => simp
  | some formula =>
    by_cases hblank : isBlankText formula
    · simp [hblank]
    · simp [hblank, verdict_flag]

theorem written_servoLines (verdict : Servo.Definition → String) (l : List Servo.Definition) :
    (written (l.map fun d => servoLine d (verdict d))).2 =
      if ∀ d ∈ l, Integer.isShort d.maximum then .ok () else .error .tooLongToWrite := by
  induction l with
  | nil => rfl
  | cons d l ih =>
    rw [List.map_cons, servoLine]
    by_cases h : Integer.isShort d.maximum
    · rw [Integer.write_of_isShort h]
      refine ih.trans (if_congr ?_ rfl rfl)
      rw [List.forall_mem_cons, and_iff_right h]
    · rw [Integer.write_of_not_isShort h, if_neg fun hall => h (hall d List.mem_cons_self)]
      rfl

def maximumOf (s : Settings) (id : Int) : Int := s.maximumUnder (toString id)

/-- The verdicts on the known servos decide how a check ends, unless one of these has a maximum that
is negative or too long to be shown. -/
theorem checkSettings_cases (hload : Settings.load tree (Path.ofText path) = .ok s) :
    ((∀ id ∈ knownIds, 0 ≤ maximumOf s id) ∧ (checkSettings tree path).ending =
        if ∀ id ∈ knownIds, Integer.isShort (maximumOf s id) then
          .ok (status (knownIds.map fun id => (servoVerdict s id).1))
        else .error (.breakdown .tooLongToWrite)) ∨
      (∃ id ∈ knownIds, maximumOf s id < 0) ∧ (checkSettings tree path).ending =
        .error (.servos [⟨.belowMinimum, [.field "max_value"]⟩]) := by
  rw [checkSettings, hload]
  dsimp only
  cases hservos : s.servos with
  | error complaints =>
    obtain ⟨⟨e, he, hmaximum⟩, rfl⟩ := Settings.servos_eq_error_iff.1 hservos
    exact .inr ⟨⟨e.1, List.mem_map_of_mem he, hmaximum⟩, rfl⟩
  | ok l =>
    have hmap := Settings.map_servos hservos
    have hids : l.map Servo.Definition.id = knownIds := by
      have h := congrArg (List.map Prod.fst) hmap
      rwa [List.map_map, List.map_map] at h
    have hmaximum : l.map Servo.Definition.maximum = knownIds.map (maximumOf s) := by
      have h := congrArg (List.map fun d => d.2.2) hmap
      rw [List.map_map, List.map_map] at h
      rw [knownIds, List.map_map]
      exact h
    have hmaxima : (∀ d ∈ l, Integer.isShort d.maximum) ↔
        ∀ id ∈ knownIds, Integer.isShort (maximumOf s id) := by
      rw [← List.forall_mem_map (f := maximumOf s) (P := fun m => Integer.isShort m), ← hmaximum,
        List.forall_mem_map]
    refine .inl ⟨List.forall_mem_map.2 (Settings.servos_succeeds_iff.1 ⟨l, hservos⟩), ?_⟩
    have hwritten := written_servoLines (fun d => (servoVerdict s d.id).2) l
    rw [if_congr hmaxima rfl rfl] at hwritten
    dsimp only
    rw [List.map_map, List.map_map]
    change ((written (l.map fun d => servoLine d (servoVerdict s d.id).2)).2.mapError _).map _ = _
    rw [hwritten, ← hids, List.map_map]
    split <;> rfl

theorem ending_eq_ok_iff (hload : Settings.load tree (Path.ofText path) = .ok s) {code : Nat} :
    (checkSettings tree path).ending = .ok code ↔
      (∀ id ∈ knownIds, 0 ≤ maximumOf s id ∧ Integer.isShort (maximumOf s id)) ∧
        status (knownIds.map fun id => (servoVerdict s id).1) = code := by
  rw [forall₂_and]
  rcases checkSettings_cases hload with ⟨hmaxima, h⟩ | ⟨⟨id, hid, hlt⟩, h⟩
  · rw [h, and_iff_right hmaxima]
    split
    · next hshort => rw [Except.ok.injEq, and_iff_right hshort]
    · next hlong => exact ⟨nofun, fun hshort => absurd hshort.1 hlong⟩
  · rw [h]
    exact ⟨nofun, fun hmaxima => absurd (hmaxima.1.1 id hid) (not_le.2 hlt)⟩

theorem ending_eq_error_iff (hload : Settings.load tree (Path.ofText path) = .ok s)
    {cause : Crash} :
    (checkSettings tree path).ending = .error cause ↔
      (∃ id ∈ knownIds, maximumOf s id < 0) ∧
          cause = .servos [⟨.belowMinimum, [.field "max_value"]⟩] ∨
        ((∀ id ∈ knownIds, 0 ≤ maximumOf s id) ∧
          ∃ id ∈ knownIds, ¬ Integer.isShort (maximumOf s id)) ∧
          cause = .breakdown .tooLongToWrite := by
  rcases checkSettings_cases hload with ⟨hmaxima, h⟩ | ⟨hnegative, h⟩
  · have hnone : ¬ ∃ id ∈ knownIds, maximumOf s id < 0 := fun ⟨id, hid, hlt⟩ =>
      absurd (hmaxima id hid) (not_le.2 hlt)
    rw [h, and_iff_right hmaxima]
    split
    · next hshort =>
      refine ⟨nofun, ?_⟩
      rintro (⟨hsome, -⟩ | ⟨⟨id, hid, hlong⟩, -⟩)
      · exact absurd hsome hnone
      · exact absurd (hshort id hid) hlong
    · next hlong =>
      push Not at hlong
      rw [Except.error.injEq, eq_comm]
      exact ⟨fun hcause => .inr ⟨hlong, hcause⟩, fun h => h.elim (fun h => absurd h.1 hnone) (·.2)⟩
  · have hnot : ¬ ∀ id ∈ knownIds, 0 ≤ maximumOf s id := fun hall => by
      obtain ⟨id, hid, hlt⟩ := hnegative
      exact absurd (hall id hid) (not_le.2 hlt)
    rw [h, Except.error.injEq, and_iff_right hnegative, eq_comm]
    exact ⟨.inl, fun h => h.elim id fun h => absurd h.1.1 hnot⟩

theorem status_verdicts_eq_zero_iff :
    status (knownIds.map fun id => (servoVerdict s id).1) = 0 ↔
      ∀ id ∈ knownIds, toString id ∉ s.invalidFormulas.map Prod.fst := by
  rw [status_eq_zero_iff, List.forall_mem_map]
  refine forall₂_congr fun id _ => ?_
  rw [← servoVerdict_flag_iff, Bool.not_eq_false]

theorem status_verdicts_eq_one_iff :
    status (knownIds.map fun id => (servoVerdict s id).1) = 1 ↔
      ∃ id ∈ knownIds, toString id ∈ s.invalidFormulas.map Prod.fst := by
  rw [status_eq_one_iff]
  simp [servoVerdict_flag_iff]

/-- Settings report the formulas that are neither blank nor pass. The check of a settings file looks
at those under the decimal identifiers of the known servos only: it passes if none of these is
reported and fails if one is, unless a known servo has a negative maximum, which is complained of,
or one too long to be shown. Apart from that, the check tells whether anything is reported at all
exactly if what is reported, if anything, holds a formula under the decimal identifier of a known
servo. -/
theorem check_passes_iff (hload : Settings.load tree (Path.ofText path) = .ok s) :
    let ending := (checkSettings tree path).ending
    let reported := s.invalidFormulas.map Prod.fst
    let shown := ∀ id ∈ knownIds, 0 ≤ maximumOf s id ∧ Integer.isShort (maximumOf s id)
    (s.invalidFormulas = [] ↔
        ∀ e ∈ s.formulas.entries, isBlankText e.2 ∨ Formula.validate (some e.2)) ∧
      (ending = .ok 0 ↔ shown ∧ ∀ id ∈ knownIds, toString id ∉ reported) ∧
      (ending = .ok 1 ↔ shown ∧ ∃ id ∈ knownIds, toString id ∈ reported) ∧
      (∀ cause, ending = .error cause ↔
        (∃ id ∈ knownIds, maximumOf s id < 0) ∧
            cause = .servos [⟨.belowMinimum, [.field "max_value"]⟩] ∨
          ((∀ id ∈ knownIds, 0 ≤ maximumOf s id) ∧
            ∃ id ∈ knownIds, ¬ Integer.isShort (maximumOf s id)) ∧
            cause = .breakdown .tooLongToWrite) ∧
      (shown →
        ((ending = .ok 0 ↔ s.invalidFormulas = []) ∧ (ending = .ok 1 ↔ s.invalidFormulas ≠ []) ↔
          (s.invalidFormulas ≠ [] → ∃ id ∈ knownIds, toString id ∈ reported))) := by
  intro ending reported shown
  have hzero : ending = .ok 0 ↔ shown ∧ ∀ id ∈ knownIds, toString id ∉ reported :=
    (ending_eq_ok_iff hload).trans (and_congr_right' status_verdicts_eq_zero_iff)
  have hone : ending = .ok 1 ↔ shown ∧ ∃ id ∈ knownIds, toString id ∈ reported :=
    (ending_eq_ok_iff hload).trans (and_congr_right' status_verdicts_eq_one_iff)
  refine ⟨invalidFormulas_eq_nil_iff, hzero, hone, fun cause => ending_eq_error_iff hload,
    fun hshown => ?_⟩
  rw [hzero, hone, and_iff_right hshown, and_iff_right hshown]
  -- An empty report holds no formula of a known servo.
  by_cases hnil : s.invalidFormulas = []
  · simp [reported, hnil]
  · simp [hnil]

/-- A formula that is reported is found under the decimal identifier of its servo. -/
theorem check_passes_iff_listed :
    let text := "\x7b\"formulas\":\x7b\"12\":\"1+\",\"2\":\"2+\"\x7d\x7d"
    let tree := FileTree.empty.put (Path.ofText "a.json") (.file text)
    ∃ s, Settings.load tree (Path.ofText "a.json") = .ok s ∧
      s.invalidFormulas.map Prod.fst = ["12", "2"] ∧
      (checkSettings tree "a.json").ending = .ok 1 := by
  intro text tree
  have hloaded : ∃ s, Settings.load tree (Path.ofText "a.json") = .ok s ∧
      (∀ id ∈ knownIds, 0 ≤ maximumOf s id ∧ Integer.isShort (maximumOf s id)) ∧
      s.invalidFormulas.map Prod.fst = ["12", "2"] := by
    decide +kernel
  obtain ⟨s, hload, hshown, hreported⟩ := hloaded
  have hlisted : ∃ id ∈ knownIds, toString id ∈ s.invalidFormulas.map Prod.fst := by
    rw [hreported]
    exact ⟨2, by decide, by decide⟩
  exact ⟨s, hload, hreported, (check_passes_iff hload).2.2.1.2 ⟨hshown, hlisted⟩⟩

/-- A formula under a key that is no known servo is reported, but the check passes. -/
theorem unlisted_formula_is_not_checked :
    let text := "\x7b\"formulas\":\x7b\"12\":\"1+\"\x7d\x7d"
    let tree := FileTree.empty.put (Path.ofText "a.json") (.file text)
    (checkSettings tree "a.json").ending = .ok 0 ∧
      ∃ s, Settings.load tree (Path.ofText "a.json") = .ok s ∧ (∀ e ∈ s.maxima.entries, 0 ≤ e.2) ∧
        s.invalidFormulas = [("12", "Unexpected end of formula")] := by
  decide +kernel

end CommandLine.Report
end RobotHand
