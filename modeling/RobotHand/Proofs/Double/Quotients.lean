import RobotHand.Proofs.Double.Bounds
import RobotHand.Proofs.Double.Integers
import RobotHand.Proofs.Double.Values

/-! Rounding to a double depends on the value of a quotient only, and leaves a double as it is. -/
namespace RobotHand

theorem roundDiv_mul {c : Nat} (hc : 0 < c) (p q : Nat) :
    roundDiv (c * p) (c * q) = roundDiv p q := by
  have hdiv : c * p / (c * q) = p / q := Nat.mul_div_mul_left p q hc
  have hmod : c * p % (c * q) = c * (p % q) := Nat.mul_mod_mul_left c p q
  have hdouble : 2 * (c * (p % q)) = c * (2 * (p % q)) := Nat.mul_left_comm 2 c _
  unfold roundDiv
  simp only [hdiv, hmod, hdouble, Nat.mul_lt_mul_left hc]

/-- Quotients of one value are rounded alike. -/
theorem roundDiv_congr {p q p' q' : Nat} (hq : 0 < q) (hq' : 0 < q') (h : p * q' = p' * q) :
    roundDiv p q = roundDiv p' q' := by
  calc roundDiv p q = roundDiv (q' * p) (q' * q) := (roundDiv_mul hq' p q).symm
    _ = roundDiv (q * p') (q * q') := by
        rw [Nat.mul_comm q' p, h, Nat.mul_comm p' q, Nat.mul_comm q' q]
    _ = roundDiv p' q' := roundDiv_mul hq p' q'

theorem roundDiv_mul_self {b : Nat} (hb : 0 < b) (s : Nat) : roundDiv (s * b) b = s := by
  have hcongr : roundDiv (s * b) b = roundDiv s 1 := roundDiv_congr hb Nat.one_pos (by ring)
  rw [hcongr, Binary64.roundDiv_one]

namespace Binary64

theorem log_eq_of_bracket {r : ℚ} {k : Int} (hr : 0 < r) (hlow : (2 : ℚ) ^ k ≤ r)
    (hhigh : r < (2 : ℚ) ^ (k + 1)) : Int.log 2 r = k := by
  have hle : k ≤ Int.log 2 r :=
    (Int.zpow_le_iff_le_log Nat.one_lt_two hr).1 (by exact_mod_cast hlow)
  have hlt : Int.log 2 r < k + 1 :=
    (Int.lt_zpow_iff_log_lt Nat.one_lt_two hr).1 (by exact_mod_cast hhigh)
  omega

/-- The leading exponent is the binary logarithm of the quotient. -/
theorem leadingExponent_eq {p q : Nat} (hp : 0 < p) (hq : 0 < q) :
    leadingExponent p q = Int.log 2 ((p : ℚ) / q) := by
  have hpq : (0 : ℚ) < p := Nat.cast_pos.2 hp
  have hqq : (0 : ℚ) < q := Nat.cast_pos.2 hq
  unfold leadingExponent
  split
  · next hle =>
    have hone : (1 : ℚ) ≤ p / q := (one_le_div hqq).2 (Nat.cast_le.2 hle)
    rw [Int.log_of_one_le_right 2 hone, Nat.floor_div_eq_div, Nat.log2_eq_log_two]
  · next hlt =>
    have hne : (q - 1) / p ≠ 0 := (Nat.div_pos (by omega) hp).ne'
    have hlow : 2 ^ ((q - 1) / p).log2 * p ≤ q - 1 :=
      (Nat.le_div_iff_mul_le hp).1 (Nat.log2_self_le hne)
    have hhigh : q - 1 < 2 ^ (((q - 1) / p).log2 + 1) * p :=
      (Nat.div_lt_iff_lt_mul hp).1 Nat.lt_log2_self
    generalize ((q - 1) / p).log2 = l at hlow hhigh
    have habove : q ≤ p * 2 ^ (l + 1) := by
      rw [Nat.mul_comm]
      omega
    have hbelow : p * 2 ^ l < q := by
      rw [Nat.mul_comm]
      omega
    have hexp : -((l + 1 : Nat) : Int) + 1 = -(l : Int) := by omega
    symm
    apply log_eq_of_bracket (div_pos hpq hqq)
    · rw [zpow_neg, zpow_natCast, inv_le_iff_one_le_mul₀ (by positivity), div_mul_eq_mul_div,
        one_le_div hqq]
      exact_mod_cast habove
    · rw [hexp, zpow_neg, zpow_natCast, ← one_div, div_lt_div_iff₀ hqq (by positivity), one_mul]
      exact_mod_cast hbelow

theorem units_pos {p q : Nat} (hq : 0 < q) (e : Int) : 0 < (units p q e).2 := by
  unfold units
  split
  · exact Nat.mul_pos hq (Nat.two_pow_pos _)
  · exact hq

/-- In any units, quotients of one value are of one value. -/
theorem units_congr {p q p' q' : Nat} (h : p * q' = p' * q) (e : Int) :
    (units p q e).1 * (units p' q' e).2 = (units p' q' e).1 * (units p q e).2 := by
  unfold units
  split
  · change p * (q' * 2 ^ e.toNat) = p' * (q * 2 ^ e.toNat)
    rw [← Nat.mul_assoc, h, Nat.mul_assoc]
  · change p * 2 ^ (-e).toNat * q' = p' * 2 ^ (-e).toNat * q
    rw [Nat.mul_right_comm, h, Nat.mul_right_comm]

theorem nearest_eq_units {p q : Nat} {e : Int} (hp : 0 < p)
    (he : max leastExponent (leadingExponent p q - 52) = e) :
    nearest p q = saturate (if roundDiv (units p q e).1 (units p q e).2 = 2 * hidden
      then finite false hidden (e + 1)
      else finite false (roundDiv (units p q e).1 (units p q e).2) e) :=
  nearest_eq hp he rfl

/-- Quotients of one value have one nearest double. -/
theorem nearest_congr {p q p' q' : Nat} (hq : 0 < q) (hq' : 0 < q') (h : p * q' = p' * q) :
    nearest p q = nearest p' q' := by
  rcases Nat.eq_zero_or_pos p with rfl | hp
  · have hzero : p' = 0 := by
      rw [Nat.zero_mul] at h
      exact (Nat.mul_eq_zero.1 h.symm).resolve_right hq.ne'
    rw [hzero]
    rfl
  · have hp' : 0 < p' := by
      refine Nat.pos_of_ne_zero fun hzero => ?_
      rw [hzero, Nat.zero_mul] at h
      exact absurd h (Nat.mul_pos hp hq').ne'
    have hvalue : (p : ℚ) / q = p' / q' := by
      rw [div_eq_div_iff (Nat.cast_ne_zero.2 hq.ne') (Nat.cast_ne_zero.2 hq'.ne')]
      exact_mod_cast h
    have hexp : leadingExponent p q = leadingExponent p' q' := by
      rw [leadingExponent_eq hp hq, leadingExponent_eq hp' hq', hvalue]
    have hround : ∀ e, roundDiv (units p q e).1 (units p q e).2 =
        roundDiv (units p' q' e).1 (units p' q' e).2 := fun e =>
      roundDiv_congr (units_pos hq e) (units_pos hq' e) (units_congr h e)
    rw [nearest_eq_units hp rfl, nearest_eq_units hp' rfl, hexp, hround]

theorem ratio_fst_pos {s : Nat} (hs : 0 < s) (e : Int) : 0 < (ratio s e).1 :=
  Nat.pos_of_ne_zero fun h => hs.ne' ((ratio_eq_zero_iff s e).1 h)

/-- The leading exponent of a double. -/
theorem leadingExponent_ratio {s : Nat} (hs : 0 < s) (e : Int) :
    leadingExponent (ratio s e).1 (ratio s e).2 = s.log2 + e := by
  have hzpow : (0 : ℚ) < 2 ^ e := by positivity
  have hlow : (2 : ℚ) ^ s.log2 ≤ s := by exact_mod_cast Nat.log2_self_le hs.ne'
  have hhigh : (s : ℚ) < 2 ^ (s.log2 + 1) := by exact_mod_cast Nat.lt_log2_self
  rw [leadingExponent_eq (ratio_fst_pos hs e) (ratio_pos s e), ratio_div]
  apply log_eq_of_bracket (by positivity)
  · rw [zpow_add₀ two_ne_zero, zpow_natCast]
    exact mul_le_mul_of_nonneg_right hlow hzpow.le
  · have hexp : (s.log2 : Int) + e + 1 = (s.log2 + 1 : Nat) + e := by omega
    rw [hexp, zpow_add₀ two_ne_zero, zpow_natCast]
    exact mul_lt_mul_of_pos_right hhigh hzpow

/-- In units of its exponent a double is its significand. -/
theorem units_ratio (s : Nat) (e : Int) :
    (units (ratio s e).1 (ratio s e).2 e).1 = s * (units (ratio s e).1 (ratio s e).2 e).2 := by
  unfold units ratio
  split
  · change s * 2 ^ e.toNat = s * (1 * 2 ^ e.toNat)
    rw [Nat.one_mul]
  · rfl

/-- A double is nearest to its own value. -/
theorem nearest_ratio {s : Nat} {e : Int} (h : (finite false s e).IsDouble) (hs : 0 < s) :
    nearest (ratio s e).1 (ratio s e).2 = finite false s e := by
  obtain ⟨⟨hupper, hlower, hfull⟩, hsaturate⟩ := h
  have hlog : s.log2 < 53 := (Nat.log2_lt hs.ne').2 hupper
  have hexp : max leastExponent (leadingExponent (ratio s e).1 (ratio s e).2 - 52) = e := by
    rw [leadingExponent_ratio hs]
    rcases hfull with hfull | hleast
    · have hlog' : 52 ≤ s.log2 := (Nat.le_log2 hs.ne').2 hfull
      omega
    · omega
  have hunits := @units_pos (ratio s e).1 (ratio s e).2 (ratio_pos s e) e
  have hround := roundDiv_mul_self hunits s
  rw [← units_ratio] at hround
  rw [nearest_eq_units (ratio_fst_pos hs e) hexp, hround, if_neg hupper.ne, hsaturate]

end Binary64
end RobotHand
