import RobotHand.Proofs.Double.Shortest

/-! Rounding to the nearest double gives a double, and one that is neither negative nor a NaN, also
where it starts from a decimal number. -/
namespace RobotHand

namespace Binary64

variable {p q : Nat} {e : Int} {b : Binary64}

theorem units_div (p q : Nat) (e : Int) :
    ((units p q e).1 : ℚ) / (units p q e).2 = p / q / (2 : ℚ) ^ e := by
  have hcast : ∀ n : Nat, ((Nat.pow 2 n : Nat) : ℚ) = (2 : ℚ) ^ (n : Int) := fun n => by
    rw [zpow_natCast]
    exact Nat.cast_pow 2 n
  unfold units
  split
  · next h =>
    rw [Nat.cast_mul, hcast, Int.toNat_of_nonneg h, div_div]
  · next h =>
    rw [Nat.cast_mul, hcast, Int.toNat_of_nonneg (by omega), zpow_neg, ← div_eq_mul_inv,
      div_right_comm]

/-- In units of its last place a quotient fills the format, unless the exponent is the least. -/
theorem units_bounds (hp : 0 < p) (hq : 0 < q)
    (he : max leastExponent (leadingExponent p q - 52) = e) :
    (units p q e).1 / (units p q e).2 < 2 * hidden ∧
      (hidden ≤ (units p q e).1 / (units p q e).2 ∨ e = leastExponent) := by
  have hvalue : (0 : ℚ) < p / q := div_pos (Nat.cast_pos.2 hp) (Nat.cast_pos.2 hq)
  have hunit : (0 : ℚ) < 2 ^ e := by positivity
  have hlow := Int.zpow_log_le_self Nat.one_lt_two hvalue
  have hhigh := Int.lt_zpow_succ_log_self Nat.one_lt_two ((p : ℚ) / q)
  rw [← leadingExponent_eq hp hq] at hlow hhigh
  rw [← Nat.floor_div_eq_div (K := ℚ), units_div, Nat.floor_lt (by positivity),
    Nat.le_floor_iff (by positivity), div_lt_iff₀ hunit, le_div_iff₀ hunit]
  constructor
  · have hcarry : ((2 * hidden : Nat) : ℚ) * 2 ^ e = 2 ^ (53 + e) := by
      rw [zpow_add₀ two_ne_zero]
      norm_num [hidden]
    have hexp : leadingExponent p q + 1 ≤ 53 + e := by omega
    rw [hcarry]
    exact_mod_cast hhigh.trans_le (zpow_le_zpow_right₀ one_le_two hexp)
  · refine or_iff_not_imp_right.2 fun hleast => ?_
    have hfull : (hidden : ℚ) * 2 ^ e = 2 ^ (52 + e) := by
      rw [zpow_add₀ two_ne_zero]
      norm_num [hidden]
    have hexp : 52 + e = leadingExponent p q := by omega
    rw [hfull, hexp]
    exact_mod_cast hlow

/-- A double that is neither negative nor a NaN. -/
def IsMagnitude (b : Binary64) : Prop := b.IsDouble ∧ b ≠ nan ∧ b.isNegative = false

theorem isMagnitude_zero : zero.IsMagnitude :=
  ⟨⟨⟨by decide, Int.le_refl _, .inr rfl⟩, rfl⟩, by simp [zero], rfl⟩

theorem isMagnitude_infinite : (infinite false).IsMagnitude := ⟨⟨trivial, rfl⟩, by simp, rfl⟩

theorem isMagnitude_saturate {s : Nat} (h : (finite false s e).Scaled) :
    (finite false s e).saturate.IsMagnitude := by
  rw [saturate]
  split
  · exact isMagnitude_infinite
  · next hle => exact ⟨⟨h, if_neg hle⟩, by simp, rfl⟩

/-- What is nearest to a quotient is a double, or infinity. -/
theorem isMagnitude_nearest (p : Nat) (hq : 0 < q) : (nearest p q).IsMagnitude := by
  rcases Nat.eq_zero_or_pos p with rfl | hp
  · exact isMagnitude_zero
  · obtain ⟨e, he⟩ : ∃ e, max leastExponent (leadingExponent p q - 52) = e := ⟨_, rfl⟩
    have hleast : leastExponent ≤ e := he ▸ le_max_left _ _
    obtain ⟨hupper, hlower⟩ := units_bounds hp hq he
    have hfloor := div_le_roundDiv (units p q e).1 (units p q e).2
    have hsucc := roundDiv_le_succ (units p q e).1 (units p q e).2
    rw [nearest_eq_units hp he]
    split
    · exact isMagnitude_saturate ⟨by decide, by omega, .inl (Nat.le_refl _)⟩
    · next hcarry =>
      exact isMagnitude_saturate ⟨by omega, hleast, hlower.imp_left fun h => h.trans hfloor⟩

theorem IsMagnitude.ofFloat_toFloat (h : b.IsMagnitude) : ofFloat b.toFloat = b := by
  obtain ⟨hdouble, hnan, hsign⟩ := h
  cases b with
  | nan => exact absurd rfl hnan
  | infinite negative =>
    cases hsign
    decide +kernel
  | finite negative s e => exact Binary64.ofFloat_toFloat hdouble.1 hdouble.le_greatest

theorem IsMagnitude.zero_le (h : b.IsMagnitude) : 0 ≤ b.toFloat := by
  rw [← natLe_zero_iff, h.ofFloat_toFloat]
  obtain ⟨-, hnan, hsign⟩ := h
  cases b with
  | nan => exact absurd rfl hnan
  | infinite negative =>
    cases hsign
    rfl
  | finite negative s e =>
    cases hsign
    simp [natLe]

end Binary64

namespace Decimal

theorem isMagnitude_nearest (d : Nat) (k : Int) : (nearest d k).IsMagnitude := by
  unfold nearest
  dsimp only
  split
  · exact Binary64.isMagnitude_zero
  · split
    · exact Binary64.isMagnitude_infinite
    · exact Binary64.isMagnitude_nearest _ (scale_pos Nat.one_pos d k)

/-- A decimal number is read as the double nearest to it, which is neither negative nor a NaN. -/
theorem ofFloat_toFloat (d : Nat) (k : Int) :
    Binary64.ofFloat (toFloat d k) = nearest d k ∧ Binary64.ofFloat (toFloat d k) ≠ .nan ∧
      0 ≤ toFloat d k := by
  have hnearest := isMagnitude_nearest d k
  have hread : Binary64.ofFloat (toFloat d k) = nearest d k := hnearest.ofFloat_toFloat
  refine ⟨hread, ?_, hnearest.zero_le⟩
  rw [hread]
  exact hnearest.2.1

end Decimal
end RobotHand
