import RobotHand.Proofs.Control.Gates
import RobotHand.Proofs.Evaluation.Breakdowns
import RobotHand.Proofs.Printing.RoundTrip

/-! What escapes from formulas: breakdowns, and nothing else. An error that a formula may have is
logged, which takes a servo that can be named. -/
namespace RobotHand

open Formula

namespace Control

/-- The formula of a servo on a frame needs no entry in the log, or the servo can be named there. -/
def Loggable (c : Control) (frame : Frame) (id : Int) (formula : String) : Prop :=
  Integer.isShort id ∨ isBlankText formula ∨
    ∃ p, position (some formula) frame Servo.minimum (c.maximum id) = .ok p

variable {c : Control} {hand : List Landmark} {id : Int} {formula : String} {b : Breakdown}

/-- What fails with an error of its own is passed over if it is blank or can be logged. -/
theorem positionOf_of_formulaError {f : Failure} (hf : f.IsFormulaError)
    (h : position (some formula) (some hand) Servo.minimum (c.maximum id) = .error f) :
    (∃ p, c.positionOf? hand id formula = .ok p) ↔ c.Loggable (some hand) id formula := by
  have hnot : ¬ ∃ p, position (some formula) (some hand) Servo.minimum (c.maximum id) = .ok p := by
    rintro ⟨p, hp⟩
    cases h.symm.trans hp
  rw [Loggable, or_iff_left hnot, positionOf?, h]
  split
  · next heq => cases heq
  · next heq =>
    rw [heq] at h
    exact iff_of_true ⟨_, rfl⟩ (.inr (position_eq_empty_iff.1 h))
  · next b heq => exact absurd (Except.error.inj heq) (hf b)
  · next f' hne _ heq =>
    rw [Except.error.inj heq] at h
    have hblank : ¬ isBlankText formula := fun hblank => by
      cases hne (Except.error.inj (h.symm.trans (position_eq_empty_iff.2 hblank)))
    rw [or_iff_left hblank]
    cases hlog : (Servo.Reference.id id).log with
    | ok => exact iff_of_true ⟨_, rfl⟩ (by_contra fun hlong => by
        cases hlog.symm.trans (Servo.Reference.log_eq_error_iff.2 ⟨⟨id, rfl, hlong⟩, rfl⟩))
    | error b =>
      obtain ⟨⟨i, hi, hlong⟩, -⟩ := Servo.Reference.log_eq_error_iff.1 hlog
      cases hi
      exact iff_of_false nofun hlong

theorem positionOf_succeeds_iff (hmax : (c.maximum id).natAbs ≤ 2 ^ 51) :
    (∃ p, c.positionOf? hand id formula = .ok p) ↔
      (∀ b, ¬ Breaks (some formula) (some hand) b) ∧ c.Loggable (some hand) id formula := by
  have hmin : Servo.minimum.natAbs ≤ 2 ^ 51 := by decide
  have hbreaks := fun b => @position_eq_breakdown_iff (some formula) (some hand) _ _ hmin hmax b
  have hchecked := @position_checked_iff (some formula) (some hand) _ _ hmin hmax
  cases h : position (some formula) (some hand) Servo.minimum (c.maximum id) with
  | ok p =>
    have hnone := hchecked.1 (.inl ⟨p, h⟩)
    refine iff_of_true ⟨some p, ?_⟩ ⟨hnone, .inr (.inr ⟨p, h⟩)⟩
    rw [positionOf?, h]
  | error f =>
    by_cases hf : f.IsFormulaError
    · rw [positionOf_of_formulaError hf h, and_iff_right (hchecked.1 (.inr ⟨f, h, hf⟩))]
    · unfold Failure.IsFormulaError at hf
      push Not at hf
      obtain ⟨b, rfl⟩ := hf
      refine iff_of_false ?_ fun hnone => hnone.1 b ((hbreaks b).1 h)
      rw [positionOf?, h]
      exact nofun

theorem positionsOn_succeeds_iff (hmax : ∀ id, (c.maximum id).natAbs ≤ 2 ^ 51)
    (hand : List Landmark) :
    (∃ positions, c.positionsOn hand = .ok positions) ↔
      ∀ entry ∈ c.formulas.entries, (∀ b, ¬ Breaks (some entry.2) (some hand) b) ∧
        c.Loggable (some hand) entry.1 entry.2 := by
  have hfound : (∃ positions, c.positionsOn hand = .ok positions) ↔
      ∃ found, (c.formulas.entries.mapM fun entry => do
        let p ← c.positionOf? hand entry.1 entry.2
        return p.map (entry.1, ·)) = .ok found := by
    constructor
    · rintro ⟨positions, h⟩
      obtain ⟨found, h, -⟩ := bind_eq_ok_iff.1 h
      exact ⟨found, h⟩
    · rintro ⟨found, h⟩
      exact ⟨_, bind_eq_ok_iff.2 ⟨found, h, rfl⟩⟩
  rw [hfound, mapM_eq_ok_iff_forall]
  refine forall₂_congr fun entry _ => ?_
  rw [← positionOf_succeeds_iff (hmax entry.1)]
  constructor
  · rintro ⟨y, h⟩
    obtain ⟨p, hp, -⟩ := bind_eq_ok_iff.1 h
    exact ⟨p, hp⟩
  · rintro ⟨p, hp⟩
    exact ⟨_, bind_eq_ok_iff.2 ⟨p, hp, rfl⟩⟩

theorem process_succeeds_iff (hmax : ∀ id, (c.maximum id).natAbs ≤ 2 ^ 51) (frame : Frame) :
    (∃ positions, (c.process frame).result = .ok positions) ↔
      frame = none ∨ ∀ entry ∈ c.formulas.entries,
        (∀ b, ¬ Breaks (some entry.2) frame b) ∧ c.Loggable frame entry.1 entry.2 := by
  cases frame with
  | none => exact ⟨fun _ => .inl rfl, fun _ => ⟨_, rfl⟩⟩
  | some hand =>
    have hpositions := positionsOn_succeeds_iff hmax hand
    unfold process
    dsimp only
    split
    · next e h =>
      refine ⟨nofun, fun hnone => ?_⟩
      obtain ⟨positions, hok⟩ := hpositions.2 (hnone.resolve_left nofun)
      rw [h] at hok
      cases hok
    · next positions h => exact ⟨fun _ => .inr (hpositions.1 ⟨positions, h⟩), fun _ => ⟨_, rfl⟩⟩

end Control

/-- A numeral beyond the greatest float. -/
def nines : Numeral where
  whole := List.replicate 311 '9'
  fraction := none
  whole_ne_nil := List.cons_ne_nil _ _
  whole_digits _ hc := List.eq_of_mem_replicate hc ▸ rfl
  fraction_digits := nofun

def digit (c : Char) (h : c.isDigit) : Numeral where
  whole := [c]
  fraction := none
  whole_ne_nil := List.cons_ne_nil _ _
  whole_digits _ hc := List.mem_singleton.1 hc ▸ h
  fraction_digits := nofun

/-- A map of infinity less infinity, which is a NaN, from a range of width zero. -/
def emptyMap : Script :=
  .call ⟨'m', ['a', 'p'], rfl, .part rfl (.part rfl .nil)⟩
    [.join .subtract rfl (.number nines) (.number nines), .number (digit '0' rfl),
      .number (digit '0' rfl), .number (digit '0' rfl), .number (digit '1' rfl)]

theorem emptyMap_print :
    emptyMap.print = "map((" ++ String.ofList (List.replicate 311 '9') ++ "-" ++
      String.ofList (List.replicate 311 '9') ++ "),0,0,0,1)" := by
  have htext : emptyMap.text = "map((".toList ++ List.replicate 311 '9' ++ "-".toList ++
      List.replicate 311 '9' ++ "),0,0,0,1)".toList := by decide +kernel
  rw [Script.print, htext]
  simp only [String.ofList_append, String.ofList_toList]

theorem nines_value : nines.value = (Binary64.infinite false).toFloat := by
  have hnear : Decimal.nearest (Decimal.valueOf (nines.whole ++ [])) 0 = .infinite false := by
    decide +kernel
  exact congrArg Binary64.toFloat hnear

theorem emptyRange_nines :
    EmptyRange [nines.value - nines.value, (digit '0' rfl).value, (digit '0' rfl).value,
      (digit '0' rfl).value, (digit '1' rfl).value] := by
  refine ⟨_, _, _, _, _, rfl, ?_, by decide +kernel, by decide +kernel⟩
  rw [nines_value]
  decide +kernel

/-- A NaN made of two infinities, mapped from a range of width zero, ends in a breakdown. -/
theorem breaks_emptyMap (frame : Frame) : Breaks
    (some ("map((" ++ String.ofList (List.replicate 311 '9') ++ "-" ++
      String.ofList (List.replicate 311 '9') ++ "),0,0,0,1)")) frame .emptyRange := by
  rw [← emptyMap_print]
  have hcompile := Script.compile_print emptyMap
  rw [if_pos (by decide)] at hcompile
  exact ⟨_, hcompile, .emptyRange rfl emptyRange_nines⟩

/-- A formula gives an integer or one of its errors exactly if it does not break down. A frame is
processed to its end exactly if no formula breaks down and each one that fails belongs to a servo
that can be named in the log. -/
theorem only_breakdowns_escape (frame : Frame) :
    (∀ formula low high, low.natAbs ≤ 2 ^ 51 → high.natAbs ≤ 2 ^ 51 →
      (((∃ p, position formula frame low high = .ok p) ∨
          ∃ f, position formula frame low high = .error f ∧ f.IsFormulaError) ↔
        ∀ b, ¬ Breaks formula frame b)) ∧
      ∀ c : Control, (∀ id, (c.maximum id).natAbs ≤ 2 ^ 51) →
        ((∃ positions, (c.process frame).result = .ok positions) ↔
          frame = none ∨ ∀ entry ∈ c.formulas.entries,
            (∀ b, ¬ Breaks (some entry.2) frame b) ∧ c.Loggable frame entry.1 entry.2) :=
  ⟨fun _ _ _ hl hh => position_checked_iff hl hh,
    fun _ hmax => Control.process_succeeds_iff hmax frame⟩

/-- The formula neither gives a position nor fails with an error of its own, and a control that
holds it cannot process a frame. -/
theorem emptyMap_escapes :
    let formula := "map((" ++ String.ofList (List.replicate 311 '9') ++ "-" ++
      String.ofList (List.replicate 311 '9') ++ "),0,0,0,1)"
    position (some formula) (some []) 0 1023 = .error (.evaluation (.breakdown .emptyRange)) ∧
      (¬ ((∃ p, position (some formula) (some []) 0 1023 = .ok p) ∨
        ∃ f, position (some formula) (some []) 0 1023 = .error f ∧ f.IsFormulaError)) ∧
      ¬ ∃ positions,
        (({ formulas := .single 1 formula } : Control).process (some [])).result =
          .ok positions := by
  intro formula
  have hbreaks := breaks_emptyMap (some [])
  have hmax : ∀ id, (({ formulas := .single 1 formula } : Control).maximum id).natAbs ≤ 2 ^ 51 := by
    intro id
    change ((if 11 = id then some (4095 : Int) else none).getD 1023).natAbs ≤ 2 ^ 51
    split <;> decide
  refine ⟨(position_eq_breakdown_iff (by decide) (by decide)).2 hbreaks, ?_, ?_⟩
  · rw [position_checked_iff (by decide) (by decide)]
    exact fun hnone => hnone _ hbreaks
  · rw [Control.process_succeeds_iff hmax]
    rintro (h | h)
    · cases h
    · exact (h (1, formula) (List.mem_singleton.2 rfl)).1 _ hbreaks

end RobotHand
