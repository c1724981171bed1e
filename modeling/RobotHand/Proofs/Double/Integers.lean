import RobotHand.Proofs.Double.Arithmetic

/-! Integers as doubles: small ones are exact, and too large ones are refused. -/
namespace RobotHand.Binary64

/-- The value of one in units of the least double. -/
@[irreducible] def unit : Nat := scaled 1 0

theorem unit_pos : 0 < unit := by
  unfold unit
  exact scaled_pos (by decide) 0

theorem leadingExponent_one {p : Nat} (hp : 0 < p) : leadingExponent p 1 = p.log2 := by
  rw [leadingExponent, if_pos (Nat.succ_le_of_lt hp), Nat.div_one]

theorem roundDiv_one (p : Nat) : roundDiv p 1 = p := by
  simp [roundDiv, Nat.mod_one]

/-- The nearest double, once its exponent is known. -/
theorem nearest_eq {p q a b : Nat} {e : Int} (hp : 0 < p)
    (he : max leastExponent (leadingExponent p q - 52) = e) (hu : units p q e = (a, b)) :
    nearest p q = saturate (if roundDiv a b = 2 * hidden then finite false hidden (e + 1)
      else finite false (roundDiv a b) e) := by
  unfold nearest
  rw [if_neg (Nat.ne_of_gt hp), he]
  dsimp only
  rw [hu]
  dsimp only
  split <;> rfl

theorem units_of_neg {p : Nat} {e : Int} (he : e < 0) :
    units p 1 e = (p * 2 ^ (-e).toNat, 1) := by
  rw [units, if_neg (Int.not_le.2 he)]
  rfl

theorem units_of_nonneg {p : Nat} {e : Int} (he : 0 ≤ e) : units p 1 e = (p, 2 ^ e.toNat) := by
  rw [units, if_pos he, Nat.one_mul]
  rfl

/-- A natural number below `2 ^ 52` is a double. -/
theorem nearest_small {p : Nat} (h : p < hidden) :
    ∃ s e, nearest p 1 = finite false s e ∧ (finite false s e).IsDouble ∧
      scaled s e = p * unit := by
  rcases Nat.eq_zero_or_pos p with rfl | hp
  · refine ⟨0, leastExponent, rfl, ⟨⟨by decide, Int.le_refl _, .inr rfl⟩, rfl⟩, ?_⟩
    rw [scaled_zero, Nat.zero_mul]
  have hlog : p.log2 < 52 := (Nat.log2_lt (Nat.ne_of_gt hp)).2 h
  have hlow : hidden ≤ p * 2 ^ (52 - p.log2) := by
    calc hidden = 2 ^ (p.log2 + (52 - p.log2)) := by
          rw [Nat.add_sub_cancel' (Nat.le_of_lt hlog)]
          rfl
      _ = 2 ^ p.log2 * 2 ^ (52 - p.log2) := Nat.pow_add ..
      _ ≤ p * 2 ^ (52 - p.log2) :=
          Nat.mul_le_mul_right _ (Nat.log2_self_le (Nat.ne_of_gt hp))
  have hhigh : p * 2 ^ (52 - p.log2) < 2 * hidden := by
    calc p * 2 ^ (52 - p.log2) < 2 ^ (p.log2 + 1) * 2 ^ (52 - p.log2) :=
          Nat.mul_lt_mul_of_pos_right Nat.lt_log2_self (Nat.two_pow_pos _)
      _ = 2 ^ (p.log2 + (52 - p.log2) + 1) := by rw [← Nat.pow_add, Nat.add_right_comm]
      _ = 2 * hidden := by
          rw [Nat.add_sub_cancel' (Nat.le_of_lt hlog)]
          rfl
  have hmin : leastExponent = -1074 := rfl
  have hmax : greatestExponent = 971 := rfl
  have he : max leastExponent (leadingExponent p 1 - 52) = p.log2 - 52 := by
    rw [leadingExponent_one hp]
    omega
  have hexp : (-((p.log2 : Int) - 52)).toNat = 52 - p.log2 := by omega
  have hnear := nearest_eq hp he (units_of_neg (by omega))
  rw [hexp, roundDiv_one, if_neg (Nat.ne_of_lt hhigh), saturate, if_neg (by omega)] at hnear
  refine ⟨_, _, hnear, ⟨⟨hhigh, by omega, .inl hlow⟩, ?_⟩, ?_⟩
  · rw [saturate, if_neg (by omega)]
  · rw [unit, ← scaled_mul_left, Nat.mul_one]
    exact (scaled_add p _ (by omega) (by omega)).symm

/-- Where rounding to whole multiples of `2 * b` reaches the even multiple `2 * n`. -/
theorem roundDiv_lt_iff {b n : Nat} (hb : 0 < b) (hn : 0 < n) (p : Nat) :
    roundDiv p (2 * b) < 2 * n ↔ p < (4 * n - 1) * b := by
  have hp := Nat.div_add_mod p (2 * b)
  have hr : p % (2 * b) < 2 * b := Nat.mod_lt _ (by omega)
  have hbound : (4 * n - 1) * b = 2 * b * (2 * n - 1) + b := by
    obtain ⟨m, rfl⟩ : ∃ m, n = m + 1 := ⟨n - 1, by omega⟩
    have h1 : 4 * (m + 1) - 1 = 2 * (2 * m + 1) + 1 := by omega
    have h2 : 2 * (m + 1) - 1 = 2 * m + 1 := by omega
    rw [h1, h2, Nat.add_mul, Nat.one_mul]
    ac_rfl
  unfold roundDiv
  generalize p / (2 * b) = k at hp
  generalize p % (2 * b) = r at hp hr
  rcases Nat.lt_trichotomy k (2 * n - 1) with h | h | h
  · have hle : 2 * b * (k + 1) ≤ 2 * b * (2 * n - 1) := Nat.mul_le_mul_left _ (by omega)
    rw [Nat.mul_add, Nat.mul_one] at hle
    dsimp only
    split
    · omega
    · split <;> omega
  · rw [h] at hp ⊢
    dsimp only
    split
    · omega
    · split <;> omega
  · have hle : 2 * b * (2 * n - 1 + 1) ≤ 2 * b * k := Nat.mul_le_mul_left _ (by omega)
    rw [Nat.mul_add, Nat.mul_one] at hle
    dsimp only
    split
    · omega
    · split <;> omega

theorem roundDiv_le_succ (p q : Nat) : roundDiv p q ≤ p / q + 1 := by
  unfold roundDiv
  dsimp only
  split
  · omega
  · split <;> omega

theorem div_le_roundDiv (p q : Nat) : p / q ≤ roundDiv p q := by
  unfold roundDiv
  dsimp only
  split
  · omega
  · split <;> omega

theorem isFinite_saturate {a : Bool} {s : Nat} {e : Int} :
    (finite a s e).saturate.isFinite ↔ e ≤ greatestExponent := by
  rw [saturate]
  split
  · next h => exact ⟨fun hf => absurd hf Bool.false_ne_true, fun hle => absurd h (Int.not_lt.2 hle)⟩
  · next h => exact ⟨fun _ => Int.not_lt.1 h, fun _ => rfl⟩

/-- Halfway between the greatest double and the power of two after it. -/
def overflow : Nat := (4 * hidden - 1) * 2 ^ 970

theorem two_pow_mul_le_iff {p : Nat} (hp : 0 < p) {m b : Nat} :
    2 ^ m * 2 ^ b ≤ p ↔ m + b ≤ p.log2 := by
  rw [← Nat.pow_add]
  exact (Nat.le_log2 (Nat.ne_of_gt hp)).symm

/-- Natural numbers from halfway beyond the greatest double on have no nearest double. -/
theorem isFinite_nearest_iff (p : Nat) : (nearest p 1).isFinite ↔ p < overflow := by
  unfold overflow
  have hmin : leastExponent = -1074 := rfl
  have hmax : greatestExponent = 971 := rfl
  have hhid : hidden = 0x10000000000000 := rfl
  generalize hj : 970 = j
  have hb : 0 < 2 ^ j := Nat.two_pow_pos j
  rcases Nat.eq_zero_or_pos p with rfl | hp
  · have hpos : 0 < (4 * hidden - 1) * 2 ^ j := Nat.mul_pos (by decide) hb
    exact ⟨fun _ => hpos, fun _ => rfl⟩
  have he : max leastExponent (leadingExponent p 1 - 52) = p.log2 - 52 := by
    rw [leadingExponent_one hp]
    omega
  have h53 := two_pow_mul_le_iff hp (m := 53) (b := j)
  have h54 := two_pow_mul_le_iff hp (m := 54) (b := j)
  -- Only in the binade of the greatest double does rounding decide.
  by_cases hlast : p.log2 = 1023
  · have hexp : ((p.log2 : Int) - 52).toNat = j + 1 := by omega
    have hnear := nearest_eq hp he (units_of_nonneg (by omega))
    rw [hexp, Nat.pow_succ'] at hnear
    have hlt := roundDiv_lt_iff hb (n := hidden) (by decide) p
    have hdiv : p / (2 * 2 ^ j) < 2 * hidden := by
      apply Nat.div_lt_of_lt_mul
      rw [hhid]
      omega
    have hle := roundDiv_le_succ p (2 * 2 ^ j)
    rw [hnear, ← hlt]
    split
    · rw [isFinite_saturate]
      omega
    · rw [isFinite_saturate]
      omega
  · generalize hu : units p 1 (p.log2 - 52) = u
    rw [nearest_eq hp he hu]
    have hfin : (if roundDiv u.1 u.2 = 2 * hidden then finite false hidden (p.log2 - 52 + 1)
        else finite false (roundDiv u.1 u.2) (p.log2 - 52)).saturate.isFinite ↔
          p.log2 ≤ 1022 := by
      split
      · rw [isFinite_saturate]
        omega
      · rw [isFinite_saturate]
        omega
    rw [hfin, hhid]
    omega

theorem isFinite_ofInt (i : Int) : (ofInt i).isFinite = (nearest i.natAbs 1).isFinite := by
  unfold ofInt
  cases nearest i.natAbs 1 <;> rfl

theorem floatOfInt_eq_error_iff (n : Nat) {b : Breakdown} :
    floatOfInt n = .error b ↔ b = .tooLarge ∧ overflow ≤ n := by
  have hfin : (ofInt n).isFinite ↔ n < overflow := by
    rw [isFinite_ofInt, Int.natAbs_natCast]
    exact isFinite_nearest_iff n
  unfold floatOfInt
  dsimp only
  split
  · next h =>
    have := hfin.1 h
    exact ⟨nofun, fun hb => by omega⟩
  · next h =>
    have := mt hfin.2 h
    exact ⟨fun hb => ⟨(Except.error.inj hb).symm, by omega⟩, fun hb => by rw [hb.1]⟩

/-- Integers below `2 ^ 52` are exact as floats. -/
theorem floatOfInt_small {i : Int} (h : i.natAbs < hidden) :
    ∃ x, floatOfInt i = .ok x ∧ (ofFloat x).isFinite ∧ quantaOf x = i * unit := by
  obtain ⟨s, e, hnear, hdouble, hval⟩ := nearest_small h
  have hint : ofInt i = finite (decide (i < 0)) s e := by
    rw [ofInt, hnear]
  have hback : ofFloat (finite (decide (i < 0)) s e).toFloat = finite (decide (i < 0)) s e :=
    ofFloat_toFloat hdouble.1 hdouble.le_greatest
  refine ⟨(finite (decide (i < 0)) s e).toFloat, ?_, ?_, ?_⟩
  · rw [floatOfInt, hint]
    rfl
  · rw [hback]
    rfl
  · rw [quantaOf, hback, quanta, hval, signed]
    split
    · next hneg =>
      have hneg := of_decide_eq_true hneg
      have hi : (i.natAbs : Int) = -i := by omega
      rw [Int.natCast_mul, hi, Int.neg_mul, Int.neg_neg]
    · next hneg =>
      have hneg := mt decide_eq_true hneg
      have hi : (i.natAbs : Int) = i := by omega
      rw [Int.natCast_mul, hi]

end RobotHand.Binary64
