import RobotHand.Formula.Position
import RobotHand.Proofs.Double.Halves
import RobotHand.Proofs.Outcomes

/-! A finite value always settles on an integer between its bounds. -/
namespace RobotHand.Formula

open Binary64

/-- Clamping keeps a finite value between finite bounds; where they cross, the upper one wins. -/
theorem clamp_spec {v low high : Float} (hv : (ofFloat v).isFinite)
    (hl : (ofFloat low).isFinite) (hh : (ofFloat high).isFinite) :
    (ofFloat (clamp v low high)).isFinite ∧
      min (quantaOf low) (quantaOf high) ≤ quantaOf (clamp v low high) ∧
      quantaOf (clamp v low high) ≤ quantaOf high := by
  have hraise := le_iff (ne_nan_of_isFinite hl) (ne_nan_of_isFinite hv)
  have hkeep := le_iff (ne_nan_of_isFinite hv) (ne_nan_of_isFinite hh)
  have hbounds := le_iff (ne_nan_of_isFinite hl) (ne_nan_of_isFinite hh)
  unfold clamp
  dsimp only
  by_cases hlv : low ≤ v
  · rw [if_pos hlv]
    rw [hraise] at hlv
    by_cases hvh : v ≤ high
    · rw [if_pos hvh]
      rw [hkeep] at hvh
      exact ⟨hv, by omega, by omega⟩
    · rw [if_neg hvh]
      rw [hkeep] at hvh
      exact ⟨hh, by omega, by omega⟩
  · rw [if_neg hlv]
    by_cases hlh : low ≤ high
    · rw [if_pos hlh]
      rw [hbounds] at hlh
      exact ⟨hl, by omega, by omega⟩
    · rw [if_neg hlh]
      rw [hbounds] at hlh
      exact ⟨hh, by omega, by omega⟩

variable {v : Float} {low high : Int}

/-- A finite value is clamped to the bounds, which are exact as floats, and rounded. -/
theorem settle_eq_round (hl : low.natAbs ≤ 2 ^ 51) (hh : high.natAbs ≤ 2 ^ 51)
    (hv : (ofFloat v).isFinite) :
    ∃ lower upper, ((ofFloat lower).isFinite ∧ quantaOf lower = low * unit) ∧
      ((ofFloat upper).isFinite ∧ quantaOf upper = high * unit) ∧
      settle v low high = (roundHalfUp (clamp v lower upper)).mapError .breakdown ∧
      (ofFloat (clamp v lower upper)).isFinite ∧
      min low high * unit ≤ quantaOf (clamp v lower upper) ∧
      quantaOf (clamp v lower upper) ≤ high * unit := by
  have hhid : Binary64.hidden = 0x10000000000000 := rfl
  obtain ⟨lower, hlower, hlf, hlq⟩ := floatOfInt_small (i := low) (by omega)
  obtain ⟨upper, hupper, huf, huq⟩ := floatOfInt_small (i := high) (by omega)
  obtain ⟨hfin, hmin, hmax⟩ := clamp_spec hv hlf huf
  have hunit : (0 : Int) ≤ unit := Int.natCast_nonneg unit
  have hleast : min low high * unit ≤ quantaOf (clamp v lower upper) := by
    rw [hlq, huq] at hmin
    rcases Int.le_total low high with h | h
    · have hle := Int.mul_le_mul_of_nonneg_right h hunit
      rw [Int.min_eq_left h]
      omega
    · have hle := Int.mul_le_mul_of_nonneg_right h hunit
      rw [Int.min_eq_right h]
      omega
  refine ⟨lower, upper, ⟨hlf, hlq⟩, ⟨huf, huq⟩, ?_, hfin, hleast, huq ▸ hmax⟩
  unfold settle
  rw [if_pos hv, hlower, hupper]
  rfl

/-- A finite value settles on an integer between the bounds. -/
theorem settle_finite {v : Float} {low high : Int} (hl : low.natAbs ≤ 2 ^ 51)
    (hh : high.natAbs ≤ 2 ^ 51) (hv : (ofFloat v).isFinite) :
    ∃ p, settle v low high = .ok p ∧ min low high ≤ p ∧ p ≤ high := by
  obtain ⟨lower, upper, -, -, hsettle, hfin, hleast, hmost⟩ := settle_eq_round hl hh hv
  obtain ⟨p, hp, hlow, hhigh⟩ := roundHalfUp_spec hfin (by omega) hh hleast hmost
  rw [hsettle, hp]
  exact ⟨p, rfl, hlow, hhigh⟩

theorem settle_not_finite {v : Float} (low high : Int) (hv : ¬ (ofFloat v).isFinite) :
    settle v low high = .error (.notFinite v) := by
  unfold settle
  rw [if_neg hv]

end RobotHand.Formula
