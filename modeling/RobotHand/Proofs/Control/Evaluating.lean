import RobotHand.Control.Steering
import RobotHand.Proofs.Outcomes
import RobotHand.Proofs.Tables

/-! Which positions the formulas of a control give on a hand. -/
namespace RobotHand.Control

variable {c : Control} {hand : List Landmark} {id p : Int} {positions : List (Int × Int)}

/-- A blank formula gives no position. -/
theorem not_blank_of_position {formula : String} {frame : Frame} {low high : Int}
    (h : Formula.position (some formula) frame low high = .ok p) : ¬ isBlankText formula := by
  intro hblank
  obtain ⟨v, hv, -⟩ := bind_eq_ok_iff.1 h
  obtain ⟨e, he, -⟩ := bind_eq_ok_iff.1 hv
  rw [Formula.compile, if_pos hblank] at he
  cases he

theorem positionOf_eq_some_iff {formula : String} :
    c.positionOf? hand id formula = .ok (some p) ↔
      Formula.position (some formula) (some hand) Servo.minimum (c.maximum id) = .ok p := by
  unfold positionOf?
  split
  · next p' h => rw [h, Except.ok.injEq, Option.some.injEq, Except.ok.injEq]
  · next h =>
    rw [h]
    exact ⟨nofun, nofun⟩
  · next e h =>
    rw [h]
    exact ⟨nofun, nofun⟩
  · next f _ _ h =>
    rw [h]
    refine ⟨fun hlogged => ?_, nofun⟩
    cases hlog : (Servo.Reference.id id).log <;> rw [hlog] at hlogged <;> cases hlogged

/-- The positions are those of the formulas that give one. -/
theorem mem_positionsOn (h : c.positionsOn hand = .ok positions) :
    (id, p) ∈ positions ↔ ∃ formula, c.formulas.get? id = some formula ∧
      Formula.position (some formula) (some hand) Servo.minimum (c.maximum id) = .ok p := by
  obtain ⟨found, hfound, h⟩ := bind_eq_ok_iff.1 h
  cases h
  rw [List.mem_filterMap]
  constructor
  · rintro ⟨_, hmem, rfl⟩
    obtain ⟨⟨id', formula⟩, hentry, h⟩ := (mem_mapM_iff hfound).1 hmem
    obtain ⟨p', hp, h⟩ := bind_eq_ok_iff.1 h
    obtain ⟨p', rfl, heq⟩ := Option.map_eq_some_iff.1 (Except.ok.inj h)
    cases heq
    exact ⟨formula, Table.get?_eq_some_iff.2 hentry, positionOf_eq_some_iff.1 hp⟩
  · rintro ⟨formula, hformula, hp⟩
    refine ⟨some (id, p), (mem_mapM_iff hfound).2 ⟨(id, formula), ?_, ?_⟩, rfl⟩
    · exact Table.get?_eq_some_iff.1 hformula
    · exact bind_eq_ok_iff.2 ⟨some p, positionOf_eq_some_iff.2 hp, rfl⟩

theorem keys_sublist_of_mapM {l : List (Int × String)} {found : List (Option (Int × Int))}
    (h : l.mapM (fun e => return (← c.positionOf? hand e.1 e.2).map (e.1, ·)) = .ok found) :
    ((found.filterMap fun q => q).map Prod.fst).Sublist (l.map Prod.fst) := by
  induction l generalizing found with
  | nil =>
    cases h
    exact .slnil
  | cons e l ih =>
    rw [List.mapM_cons] at h
    obtain ⟨y, hy, h⟩ := bind_eq_ok_iff.1 h
    obtain ⟨ys, hys, h⟩ := bind_eq_ok_iff.1 h
    cases h
    obtain ⟨q, -, hq⟩ := bind_eq_ok_iff.1 hy
    cases hq
    cases q with
    | none => exact (ih hys).cons _
    | some q => exact (ih hys).cons_cons _

/-- Every servo has one position, as it has one formula. -/
theorem nodup_keys_positionsOn (h : c.positionsOn hand = .ok positions) :
    (positions.map Prod.fst).Nodup := by
  obtain ⟨found, hfound, h⟩ := bind_eq_ok_iff.1 h
  cases h
  exact (keys_sublist_of_mapM hfound).nodup c.formulas.nodup_keys

end RobotHand.Control
