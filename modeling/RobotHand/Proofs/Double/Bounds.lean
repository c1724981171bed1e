import RobotHand.Proofs.Double.Arithmetic

/-! Which natural numbers a float bounds. -/
namespace RobotHand.Binary64

theorem ratio_eq_zero_iff (s : Nat) (e : Int) : (ratio s e).1 = 0 ↔ s = 0 := by
  unfold ratio
  split
  · have hpow : 0 < Nat.pow 2 e.toNat := Nat.pow_pos (by decide)
    exact ⟨fun h => (Nat.mul_eq_zero.1 h).resolve_right (by omega),
      fun h => by rw [h, Nat.zero_mul]⟩
  · exact Iff.rfl

/-- A float that bounds a number bounds every lower one. -/
theorem natLe_of_le {b : Binary64} {m n : Nat} (hmn : m ≤ n) (h : b.natLe n) : b.natLe m := by
  cases b with
  | nan => exact h
  | infinite negative => exact h
  | finite negative s e =>
    cases negative with
    | true =>
      obtain ⟨hn, hp⟩ := Bool.and_eq_true_iff.1 h
      have hzero : n = 0 := eq_of_beq hn
      have hm : m = 0 := by omega
      exact Bool.and_eq_true_iff.2 ⟨beq_iff_eq.2 hm, hp⟩
    | false =>
      have hle : n * (ratio s e).2 ≤ (ratio s e).1 := of_decide_eq_true h
      exact decide_eq_true (Nat.le_trans (Nat.mul_le_mul_right _ hmn) hle)

/-- A float bounds zero exactly if it is neither negative nor a NaN. -/
theorem natLe_zero_iff {x : Float} : (ofFloat x).natLe 0 ↔ 0 ≤ x := by
  have hzero : ofFloat 0 ≠ nan := by decide
  by_cases hx : ofFloat x = nan
  · rw [hx]
    exact ⟨nofun, fun h => absurd h (not_le_of_nan (.inr hx))⟩
  · have hb := beyond_pos
    rw [le_iff hzero hx, quantaOf_zero, quantaOf]
    generalize ofFloat x = b at hx
    cases b with
    | nan => exact absurd rfl hx
    | infinite negative =>
      cases negative with
      | true =>
        simp [natLe]
        omega
      | false => simp [natLe]
    | finite negative s e =>
      cases negative with
      | true =>
        have hiff : (finite true s e).natLe 0 ↔ (ratio s e).1 = 0 := by simp [natLe]
        rw [hiff, ratio_eq_zero_iff]
        by_cases hs : s = 0
        · simp [hs]
        · have hpos := scaled_pos (Nat.pos_of_ne_zero hs) e
          simp [hs]
          omega
      | false => simp [natLe]

end RobotHand.Binary64
