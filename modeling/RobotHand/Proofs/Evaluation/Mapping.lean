import RobotHand.Number.Range
import RobotHand.Proofs.Evaluation.Positions

/-! Maps between ranges in exact arithmetic: they always have a value, and positions follow it. -/
namespace RobotHand

variable {a b c d v w x y : ℚ} {low high : Int}

theorem clamp_le_clamp (h : x ≤ y) (low high : ℚ) : clamp x low high ≤ clamp y low high := by
  rw [clamp_eq, clamp_eq]
  exact min_le_min (max_le_max h le_rfl) le_rfl

theorem nearestPosition_le (h : x ≤ y) (low high : Int) :
    nearestPosition x low high ≤ nearestPosition y low high :=
  Int.floor_mono (by gcongr; exact clamp_le_clamp h _ _)

/-- How much of an input range lies below a value, as a part of the whole. -/
def share (v a b : ℚ) : ℚ := if v ≤ a then 0 else if b ≤ v then 1 else (v - a) / (b - a)

/-- A map goes as far into the output range as its argument does into the input range. Between the
bounds of the input range the range is not empty, so that nothing is divided by zero. -/
theorem interpolate_eq (v a b c d : ℚ) :
    interpolate v a b c d = .ok (c + share v a b * (d - c)) := by
  unfold interpolate share
  split
  · rw [zero_mul, add_zero]
  · next ha =>
    split
    · rw [one_mul, add_sub_cancel]
    · next hb =>
      have hrange : b - a ≠ 0 := by linarith
      rw [if_neg (by simpa using hrange)]

theorem share_mem (v a b : ℚ) : 0 ≤ share v a b ∧ share v a b ≤ 1 := by
  unfold share
  split
  · exact ⟨le_rfl, zero_le_one⟩
  · next ha =>
    split
    · exact ⟨zero_le_one, le_rfl⟩
    · next hb =>
      have hrange : 0 < b - a := by linarith
      exact ⟨div_nonneg (by linarith) hrange.le, (div_le_one hrange).2 (by linarith)⟩

theorem share_le_share (h : v ≤ w) (a b : ℚ) : share v a b ≤ share w a b := by
  by_cases hv : v ≤ a
  · rw [share, if_pos hv]
    exact (share_mem w a b).1
  · by_cases hw : b ≤ w
    · have hone : share w a b = 1 := by rw [share, if_neg (by linarith), if_pos hw]
      rw [hone]
      exact (share_mem v a b).2
    · rw [share, share, if_neg hv, if_neg (by linarith), if_neg (by linarith), if_neg hw]
      have hrange : 0 ≤ b - a := by linarith
      gcongr

/-- Where an output range ascends, what is mapped ascends with the argument within the range. -/
theorem add_share_mul_le (h : v ≤ w) (hcd : c ≤ d) :
    c ≤ c + share v a b * (d - c) ∧
      c + share v a b * (d - c) ≤ c + share w a b * (d - c) ∧ c + share w a b * (d - c) ≤ d := by
  have hwidth : 0 ≤ d - c := sub_nonneg.2 hcd
  have hleast := mul_nonneg (share_mem v a b).1 hwidth
  have hmiddle := mul_le_mul_of_nonneg_right (share_le_share h a b) hwidth
  have hmost := mul_le_mul_of_nonneg_right (share_mem w a b).2 hwidth
  exact ⟨by linarith, by linarith, by linarith⟩

/-- A descending output range is an ascending one upside down. -/
theorem add_share_mul_ge (h : v ≤ w) (hdc : d ≤ c) :
    d ≤ c + share w a b * (d - c) ∧
      c + share w a b * (d - c) ≤ c + share v a b * (d - c) ∧ c + share v a b * (d - c) ≤ c := by
  have hneg : ∀ t : ℚ, -c + t * (-d - -c) = -(c + t * (d - c)) := fun t => by ring
  have hascends := add_share_mul_le (a := a) (b := b) h (neg_le_neg hdc)
  rw [hneg, hneg, neg_le_neg_iff, neg_le_neg_iff, neg_le_neg_iff] at hascends
  obtain ⟨hmost, hmiddle, hleast⟩ := hascends
  exact ⟨hleast, hmiddle, hmost⟩

/-- A map always has a value, also where its input range is empty or inverted. If the output range
ascends, the position of the value ascends with the argument, from the position of one bound of the
range to that of the other; if it descends, it descends. -/
theorem mapped_positions_follow (h : v ≤ w) (a b c d : ℚ) (low high : Int) :
    ∃ p q, interpolate v a b c d = .ok p ∧ interpolate w a b c d = .ok q ∧
      let position := fun x => nearestPosition x low high
      (c ≤ d → position c ≤ position p ∧ position p ≤ position q ∧ position q ≤ position d) ∧
        (d ≤ c → position d ≤ position q ∧ position q ≤ position p ∧ position p ≤ position c) := by
  refine ⟨_, _, interpolate_eq v a b c d, interpolate_eq w a b c d, fun hcd => ?_, fun hdc => ?_⟩
  · obtain ⟨hleast, hmiddle, hmost⟩ := add_share_mul_le (a := a) (b := b) h hcd
    exact ⟨nearestPosition_le hleast _ _, nearestPosition_le hmiddle _ _,
      nearestPosition_le hmost _ _⟩
  · obtain ⟨hleast, hmiddle, hmost⟩ := add_share_mul_ge (a := a) (b := b) h hdc
    exact ⟨nearestPosition_le hleast _ _, nearestPosition_le hmiddle _ _,
      nearestPosition_le hmost _ _⟩

/-- An output range that descends, of which only a part is within the bounds. -/
theorem mapped_positions_follow_inverted :
    (1 / 3 : ℚ) ≤ 1 / 2 ∧ ∃ p q, interpolate (1 / 3 : ℚ) 0 1 2000 (-1) = .ok p ∧
      interpolate (1 / 2 : ℚ) 0 1 2000 (-1) = .ok q ∧
      nearestPosition (-1) 0 1023 ≤ nearestPosition q 0 1023 ∧
      nearestPosition q 0 1023 ≤ nearestPosition p 0 1023 ∧
      nearestPosition p 0 1023 ≤ nearestPosition 2000 0 1023 := by
  have h : (1 / 3 : ℚ) ≤ 1 / 2 := by norm_num
  obtain ⟨p, q, hp, hq, -, hdescends⟩ := mapped_positions_follow h 0 1 2000 (-1) 0 1023
  exact ⟨h, p, q, hp, hq, hdescends (by norm_num)⟩

end RobotHand
