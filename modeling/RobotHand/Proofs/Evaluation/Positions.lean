import RobotHand.Proofs.Double.HalfUp
import RobotHand.Proofs.Double.Values
import RobotHand.Proofs.Evaluation.Settling

/-! Positions in exact arithmetic: a finite value settles on the integer nearest to it within the
bounds, halves up, but for the greatest double below one half. -/
namespace RobotHand

theorem clamp_eq (x low high : ℚ) : clamp x low high = min (max x low) high := by
  unfold clamp
  dsimp only
  rw [min_def, max_comm, max_def]

/-- The integer nearest to a number within bounds, halves up. -/
def nearestPosition (x : ℚ) (low high : Int) : Int := ⌊clamp x low high + 1 / 2⌋

theorem nearestPosition_eq_iff {x : ℚ} {low high n : Int} :
    nearestPosition x low high = n ↔
      (n : ℚ) - 1 / 2 ≤ clamp x low high ∧ clamp x low high < n + 1 / 2 := by
  rw [nearestPosition, Int.floor_eq_iff, sub_le_iff_le_add, ← lt_sub_iff_add_lt]
  have hone : (n : ℚ) + 1 - 1 / 2 = n + 1 / 2 := by ring
  rw [hone]

namespace Binary64

theorem value_clamp {v low high : Float} (hv : (ofFloat v).isFinite)
    (hl : (ofFloat low).isFinite) (hh : (ofFloat high).isFinite) :
    (ofFloat (clamp v low high)).value =
      clamp (ofFloat v).value (ofFloat low).value (ofFloat high).value := by
  unfold clamp
  simp only [le_iff_value_le hl hv]
  split
  · simp only [le_iff_value_le hv hh]
    split <;> rfl
  · simp only [le_iff_value_le hl hh]
    split <;> rfl

theorem value_belowHalf : (belowHalf : ℚ) / unit = 1 / 2 - 1 / 2 ^ 54 := by
  have hview : ofFloat 0.49999999999999994 = finite false (2 * hidden - 1) (-54) := by decide
  have hvalue := value_ofFloat (x := 0.49999999999999994) (by rw [hview]; rfl)
  rw [quantaOf_belowHalf, hview] at hvalue
  rw [← Int.cast_natCast belowHalf, ← hvalue]
  norm_num [value, hidden]

end Binary64

namespace Formula

open Binary64

variable {formula : Option String} {frame : Frame} {v : Float} {low high : Int}

/-- A finite value settles on the nearest position, unless it is clamped to the greatest double
below one half, which settles on one. -/
theorem settle_nearest (hl : low.natAbs ≤ 2 ^ 51) (hh : high.natAbs ≤ 2 ^ 51)
    (hv : (ofFloat v).isFinite) :
    ∃ n, settle v low high = .ok n ∧
      (clamp (ofFloat v).value low high ≠ 1 / 2 - 1 / 2 ^ 54 →
        nearestPosition (ofFloat v).value low high = n) ∧
      (clamp (ofFloat v).value low high = 1 / 2 - 1 / 2 ^ 54 → n = 1) := by
  obtain ⟨lower, upper, ⟨hlf, hlq⟩, ⟨huf, huq⟩, hsettle, hfin, hleast, hmost⟩ :=
    settle_eq_round hl hh hv
  have hu : (0 : ℚ) < unit := Nat.cast_pos.2 unit_pos
  have hunit : (0 : Int) < unit := Int.natCast_pos.2 unit_pos
  have hlower : (ofFloat lower).value = low := by
    rw [value_ofFloat hlf, hlq, Int.cast_mul, Int.cast_natCast, mul_div_cancel_right₀ _ hu.ne']
  have hupper : (ofFloat upper).value = high := by
    rw [value_ofFloat huf, huq, Int.cast_mul, Int.cast_natCast, mul_div_cancel_right₀ _ hu.ne']
  have hclamp := value_clamp hv hlf huf
  rw [hlower, hupper, value_ofFloat hfin] at hclamp
  have hcritical : clamp (ofFloat v).value low high = 1 / 2 - 1 / 2 ^ 54 ↔
      quantaOf (clamp v lower upper) = belowHalf := by
    rw [← hclamp, ← value_belowHalf, div_left_inj' hu.ne']
    exact_mod_cast Iff.rfl
  have hleast' : -(2 ^ 51) * (unit : Int) ≤ quantaOf (clamp v lower upper) :=
    (Int.mul_le_mul_of_nonneg_right (by omega) hunit.le).trans hleast
  have hmost' : quantaOf (clamp v lower upper) ≤ 2 ^ 51 * (unit : Int) :=
    hmost.trans (Int.mul_le_mul_of_nonneg_right (by omega) hunit.le)
  obtain ⟨n, hn, hexact, hone⟩ := roundHalfUp_exact hfin hleast' hmost'
  refine ⟨n, by rw [hsettle, hn]; rfl, fun hne => ?_, fun heq => hone (hcritical.1 heq)⟩
  obtain ⟨hle, hlt⟩ := hexact fun heq => hne (hcritical.2 heq)
  have hhalf : (unit : ℚ) = 2 * half := by exact_mod_cast unit_eq
  have hle' : (n : ℚ) * unit ≤ quantaOf (clamp v lower upper) + half := by exact_mod_cast hle
  have hlt' : (quantaOf (clamp v lower upper) : ℚ) + half < (n + 1) * unit := by exact_mod_cast hlt
  rw [nearestPosition_eq_iff, ← hclamp, le_div_iff₀ hu, div_lt_iff₀ hu]
  constructor <;> linarith

/-- The position of a finite value, clamped to the bounds, is the integer nearest to it, halves up,
exactly if the clamped value is not the greatest double below one half, whose position is one. -/
theorem positions_are_nearest_iff (hvalue : value formula frame = .ok v)
    (hfinite : (ofFloat v).isFinite) (hl : low.natAbs ≤ 2 ^ 51) (hh : high.natAbs ≤ 2 ^ 51) :
    let x : ℚ := min (max (ofFloat v).value low) high
    ∃ n, position formula frame low high = .ok n ∧
      ((n : ℚ) - 1 / 2 ≤ x ∧ x < n + 1 / 2 ↔ x ≠ 1 / 2 - 1 / 2 ^ 54) ∧
      (x = 1 / 2 - 1 / 2 ^ 54 → n = 1) := by
  intro x
  have hx : x = clamp (ofFloat v).value low high := (clamp_eq _ _ _).symm
  obtain ⟨n, hsettle, hnearest, hone⟩ := settle_nearest hl hh hfinite
  rw [← hx] at hnearest hone
  refine ⟨n, ?_, ⟨fun hbounds heq => ?_, fun hne => ?_⟩, hone⟩
  · rw [position, hvalue]
    exact congrArg (Except.mapError Failure.evaluation) hsettle
  · rw [hone heq, heq] at hbounds
    norm_num at hbounds
  · rw [hx]
    exact nearestPosition_eq_iff.1 (hnearest hne)

/-- A half goes up, also below zero. -/
theorem positions_are_nearest_iff_negative :
    value (some "-2.5") none = .ok (-2.5) ∧ (ofFloat (-2.5)).isFinite ∧
      (-10 : Int).natAbs ≤ 2 ^ 51 ∧ (10 : Int).natAbs ≤ 2 ^ 51 ∧
      ∃ n, position (some "-2.5") none (-10) 10 = .ok n ∧
        (n : ℚ) - 1 / 2 ≤ -5 / 2 ∧ (-5 / 2 : ℚ) < n + 1 / 2 := by
  have hvalue : value (some "-2.5") none = .ok (-2.5) := by decide +kernel
  have hview : ofFloat (-2.5) = finite true 0x14000000000000 (-51) := by decide +kernel
  have hfinite : (ofFloat (-2.5)).isFinite := by rw [hview]; rfl
  have hl : (-10 : Int).natAbs ≤ 2 ^ 51 := by decide
  have hh : (10 : Int).natAbs ≤ 2 ^ 51 := by decide
  obtain ⟨n, hposition, hnearest, -⟩ := positions_are_nearest_iff hvalue hfinite hl hh
  have hx : min (max (ofFloat (-2.5)).value ((-10 : Int) : ℚ)) ((10 : Int) : ℚ) = -5 / 2 := by
    rw [hview]
    norm_num [Binary64.value]
  rw [hx] at hnearest
  exact ⟨hvalue, hfinite, hl, hh, n, hposition, hnearest.2 (by norm_num)⟩

/-- A double that is less than a half above an integer, and yet is rounded to the next. -/
theorem just_below_half_is_rounded_up :
    value (some "0.49999999999999994") none = .ok 0.49999999999999994 ∧
      (ofFloat 0.49999999999999994).isFinite ∧
      position (some "0.49999999999999994") none 0 1023 = .ok 1 ∧
      min (max (ofFloat 0.49999999999999994).value ((0 : Int) : ℚ)) ((1023 : Int) : ℚ) <
        (1 : Int) - 1 / 2 := by
  have hrun : value (some "0.49999999999999994") none = .ok 0.49999999999999994 ∧
      (ofFloat 0.49999999999999994).isFinite ∧
      position (some "0.49999999999999994") none 0 1023 = .ok 1 := by
    decide +kernel
  obtain ⟨hvalue, hfinite, hposition⟩ := hrun
  refine ⟨hvalue, hfinite, hposition, ?_⟩
  rw [value_ofFloat hfinite, quantaOf_belowHalf, Int.cast_natCast, value_belowHalf]
  norm_num

end Formula
end RobotHand
