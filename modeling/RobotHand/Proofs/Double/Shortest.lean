import RobotHand.Number.Decimal
import RobotHand.Proofs.Double.Identity
import RobotHand.Proofs.Double.Quotients

/-! Decimal digits as doubles: zeros at the end do not count, and the shortest digits of a double
read back as it. -/
namespace RobotHand.Decimal

open Binary64 (IsDouble)

theorem digitCount_pos (n : Nat) : 0 < digitCount n := Nat.length_toDigits_pos

theorem digitCount_le_iff {n k : Nat} (hk : 0 < k) : digitCount n ≤ k ↔ n < 10 ^ k :=
  Nat.length_toDigits_le_iff (by decide) hk

theorem lt_pow_digitCount (n : Nat) : n < 10 ^ digitCount n :=
  (digitCount_le_iff (digitCount_pos n)).1 (Nat.le_refl _)

theorem pow_le_of_lt_digitCount {n k : Nat} (hn : 0 < n) (h : k < digitCount n) : 10 ^ k ≤ n := by
  rcases Nat.eq_zero_or_pos k with rfl | hk
  · exact hn
  · exact Nat.not_lt.1 fun hlt => absurd ((digitCount_le_iff hk).2 hlt) (Nat.not_le.2 h)

/-- Zeros at the end are digits too. -/
theorem digitCount_mul_pow {n : Nat} (hn : 0 < n) (j : Nat) :
    digitCount (n * 10 ^ j) = digitCount n + j := by
  have hpos : 0 < digitCount n := digitCount_pos n
  have hle : digitCount (n * 10 ^ j) ≤ digitCount n + j := by
    rw [digitCount_le_iff (by omega), Nat.pow_add]
    exact Nat.mul_lt_mul_of_pos_right (lt_pow_digitCount n) (by positivity)
  have hlow : 10 ^ (digitCount n - 1 + j) ≤ n * 10 ^ j := by
    rw [Nat.pow_add]
    exact Nat.mul_le_mul_right _ (pow_le_of_lt_digitCount hn (by omega))
  have hlt : 10 ^ (digitCount n - 1 + j) < 10 ^ digitCount (n * 10 ^ j) :=
    hlow.trans_lt (lt_pow_digitCount _)
  have hexp := (Nat.pow_lt_pow_iff_right (by decide)).1 hlt
  omega

theorem scale_pos {q : Nat} (hq : 0 < q) (p : Nat) (power : Int) : 0 < (scale p q power).2 := by
  unfold scale
  split
  · exact hq
  · exact Nat.mul_pos hq (Nat.pow_pos (by decide))

theorem scale_div (p q : Nat) (power : Int) :
    ((scale p q power).1 : ℚ) / (scale p q power).2 = p / q * (10 : ℚ) ^ power := by
  unfold scale
  split
  · next h =>
    obtain ⟨n, rfl⟩ := Int.eq_ofNat_of_zero_le h
    change ((p * 10 ^ (n : Int).toNat : Nat) : ℚ) / q = _
    rw [Int.toNat_natCast, zpow_natCast]
    push_cast
    ring
  · obtain ⟨n, rfl⟩ : ∃ n : Nat, power = -n := ⟨(-power).toNat, by omega⟩
    change (p : ℚ) / ((q * 10 ^ (- -(n : Int)).toNat : Nat) : ℚ) = _
    rw [neg_neg, Int.toNat_natCast, zpow_neg, zpow_natCast]
    push_cast
    rw [div_mul_eq_div_div, div_eq_mul_inv _ ((10 : ℚ) ^ n)]

theorem nearest_congr {p q p' q' : Nat} (hq : 0 < q) (hq' : 0 < q')
    (h : (p : ℚ) / q = p' / q') : Binary64.nearest p q = Binary64.nearest p' q' := by
  apply Binary64.nearest_congr hq hq'
  rw [div_eq_div_iff (Nat.cast_ne_zero.2 hq.ne') (Nat.cast_ne_zero.2 hq'.ne')] at h
  exact_mod_cast h

/-- Zeros at the end of digits count as their power of ten. -/
theorem nearest_mul_pow (d j : Nat) (k : Int) : nearest (d * 10 ^ j) k = nearest d (k + j) := by
  rcases Nat.eq_zero_or_pos d with rfl | hd
  · rw [Nat.zero_mul]
    unfold nearest
    rw [if_pos (.inl rfl), if_pos (.inl rfl)]
  · have hsize : (digitCount (d * 10 ^ j) : Int) + k = digitCount d + (k + j) := by
      rw [digitCount_mul_pow hd]
      omega
    have hzero : d * 10 ^ j = 0 ↔ d = 0 := by simp
    have hround : Binary64.nearest (scale (d * 10 ^ j) 1 k).1 (scale (d * 10 ^ j) 1 k).2 =
        Binary64.nearest (scale d 1 (k + j)).1 (scale d 1 (k + j)).2 := by
      apply nearest_congr (scale_pos Nat.one_pos _ _) (scale_pos Nat.one_pos _ _)
      rw [scale_div, scale_div, zpow_add₀ (by norm_num), zpow_natCast]
      push_cast
      ring
    unfold nearest
    simp only [hsize, hzero, hround]

/-- Within the range of doubles, the bounds on the size of a number do not count. -/
theorem nearest_of_range {d : Nat} {k : Int} (hd : 0 < d)
    (hlow : (10 : ℚ) ^ (-(330 : Nat) : Int) ≤ d * 10 ^ k)
    (hhigh : d * (10 : ℚ) ^ k < 10 ^ ((309 : Nat) : Int)) :
    nearest d k = Binary64.nearest (scale d 1 k).1 (scale d 1 k).2 := by
  have hten : (1 : ℚ) < 10 := by norm_num
  have hzpow : (0 : ℚ) < 10 ^ k := by positivity
  have hupper : (d : ℚ) < 10 ^ digitCount d := by exact_mod_cast lt_pow_digitCount d
  have hlower : (10 : ℚ) ^ (digitCount d - 1) ≤ d := by
    exact_mod_cast pow_le_of_lt_digitCount hd (Nat.sub_lt (digitCount_pos d) Nat.one_pos)
  have hpos := digitCount_pos d
  have hsmall : (-(330 : Nat) : Int) < digitCount d + k := by
    rw [← zpow_lt_zpow_iff_right₀ hten, zpow_add₀ (by norm_num), zpow_natCast]
    exact hlow.trans_lt (mul_lt_mul_of_pos_right hupper hzpow)
  have hlarge : ((digitCount d - 1 : Nat) : Int) + k < (309 : Nat) := by
    rw [← zpow_lt_zpow_iff_right₀ hten, zpow_add₀ (by norm_num), zpow_natCast]
    exact (mul_le_mul_of_nonneg_right hlower hzpow.le).trans_lt hhigh
  unfold nearest
  rw [if_neg (by omega), if_neg (by omega)]

theorem exactly_pos {s : Nat} (hs : 0 < s) (e : Int) : 0 < (exactly s e).1 := by
  unfold exactly
  split
  · exact Nat.mul_pos hs (Nat.two_pow_pos _)
  · exact Nat.mul_pos hs (Nat.pow_pos (by decide))

theorem exactly_value (s : Nat) (e : Int) :
    ((exactly s e).1 : ℚ) * 10 ^ (exactly s e).2 = s * 2 ^ e := by
  unfold exactly
  split
  · next h =>
    obtain ⟨n, rfl⟩ := Int.eq_ofNat_of_zero_le h
    change ((s * 2 ^ (n : Int).toNat : Nat) : ℚ) * 10 ^ (0 : Int) = _
    rw [Int.toNat_natCast, zpow_natCast]
    push_cast
    ring
  · obtain ⟨n, rfl⟩ : ∃ n : Nat, e = -n := ⟨(-e).toNat, by omega⟩
    change ((s * 5 ^ (- -(n : Int)).toNat : Nat) : ℚ) * 10 ^ (-(n : Int)) = _
    have hten : (10 : ℚ) ^ n = 2 ^ n * 5 ^ n := by rw [← mul_pow]; norm_num
    rw [neg_neg, Int.toNat_natCast, zpow_neg, zpow_neg, zpow_natCast, zpow_natCast, hten]
    push_cast
    field_simp

/-- The values of doubles lie within the range of decimals that are read. -/
theorem range_of_isDouble {s : Nat} {e : Int} (h : (Binary64.finite false s e).IsDouble)
    (hs : 0 < s) :
    (10 : ℚ) ^ (-(330 : Nat) : Int) ≤ s * 2 ^ e ∧ s * (2 : ℚ) ^ e < 10 ^ ((309 : Nat) : Int) := by
  have hone : (1 : ℚ) ≤ s := by exact_mod_cast hs
  have hupper : (s : ℚ) < 2 ^ (53 : Nat) := by exact_mod_cast h.1.1
  have hzpow : (0 : ℚ) < 2 ^ e := by positivity
  have htwo : (1 : ℚ) < 2 := by norm_num
  have hleast : (-(1074 : Nat) : Int) ≤ e := h.1.2.1
  have hgreatest : e ≤ ((971 : Nat) : Int) := h.le_greatest
  have hdown : (2 : Nat) ^ 1074 ≤ 10 ^ 330 := by decide +kernel
  have hup : (2 : Nat) ^ (53 + 971) ≤ 10 ^ 309 := by decide +kernel
  constructor
  · calc (10 : ℚ) ^ (-(330 : Nat) : Int) = (((10 ^ 330 : Nat) : ℚ))⁻¹ := by
          rw [zpow_neg, zpow_natCast, Nat.cast_pow, Nat.cast_ofNat]
      _ ≤ (((2 ^ 1074 : Nat) : ℚ))⁻¹ :=
          inv_anti₀ (by positivity) (Nat.cast_le.2 hdown)
      _ = 2 ^ (-(1074 : Nat) : Int) := by
          rw [zpow_neg, zpow_natCast, Nat.cast_pow, Nat.cast_ofNat]
      _ ≤ 2 ^ e := (zpow_le_zpow_iff_right₀ htwo).2 hleast
      _ = 1 * 2 ^ e := (one_mul _).symm
      _ ≤ s * 2 ^ e := mul_le_mul_of_nonneg_right hone hzpow.le
  · calc s * (2 : ℚ) ^ e < 2 ^ (53 : Nat) * 2 ^ e := mul_lt_mul_of_pos_right hupper hzpow
      _ ≤ 2 ^ (53 : Nat) * 2 ^ ((971 : Nat) : Int) :=
          mul_le_mul_of_nonneg_left ((zpow_le_zpow_iff_right₀ htwo).2 hgreatest) (by positivity)
      _ = ((2 ^ (53 + 971) : Nat) : ℚ) := by
          rw [zpow_natCast, ← pow_add, Nat.cast_pow, Nat.cast_ofNat]
      _ ≤ ((10 ^ 309 : Nat) : ℚ) := Nat.cast_le.2 hup
      _ = 10 ^ ((309 : Nat) : Int) := by
          rw [zpow_natCast, Nat.cast_pow, Nat.cast_ofNat]

/-- All digits of a double give it back. -/
theorem nearest_exactly {s : Nat} {e : Int} (h : (Binary64.finite false s e).IsDouble)
    (hs : 0 < s) : nearest (exactly s e).1 (exactly s e).2 = .finite false s e := by
  have hvalue := exactly_value s e
  obtain ⟨hlow, hhigh⟩ := range_of_isDouble h hs
  rw [← hvalue] at hlow hhigh
  rw [nearest_of_range (exactly_pos hs e) hlow hhigh, ← Binary64.nearest_ratio h hs]
  apply nearest_congr (scale_pos Nat.one_pos _ _) (Binary64.ratio_pos s e)
  rw [scale_div, Nat.cast_one, div_one, hvalue, Binary64.ratio_div]

theorem toFloat_mul_pow (d j : Nat) (k : Int) : toFloat (d * 10 ^ j) k = toFloat d (k + j) := by
  rw [toFloat, nearest_mul_pow]
  rfl

variable {x : Float} {s : Nat} {e : Int}

theorem toFloat_exactly (h : Binary64.ofFloat x = .finite false s e) (hs : 0 < s) :
    toFloat (exactly s e).1 (exactly s e).2 = x := by
  have hdouble := Binary64.ofFloat_isDouble x
  rw [h] at hdouble
  rw [toFloat, nearest_exactly hdouble hs, Binary64.toFloat_of_ofFloat h]

/-- The shortest digits of a positive double read back as it. -/
theorem toFloat_shortest (h : Binary64.ofFloat x = .finite false s e) (hs : 0 < s) :
    toFloat (shortest x).1 (shortest x).2 = x := by
  have hne : ¬ (Binary64.ratio s e).1 = 0 := (Binary64.ratio_fst_pos hs e).ne'
  have hfinite : (Binary64.ofFloat x).isFinite := by
    rw [h]
    rfl
  have hquanta : Binary64.quantaOf x ≠ 0 := by
    rw [Binary64.quantaOf, h]
    exact Int.natCast_ne_zero.2 (Binary64.scaled_pos hs e).ne'
  unfold shortest
  rw [h]
  dsimp only
  rw [if_neg hne]
  cases hfind : List.find? _ _ with
  | none => exact toFloat_exactly h hs
  | some candidate =>
    obtain ⟨d, k⟩ := candidate
    have hreads := List.find?_some hfind
    dsimp only at hreads
    obtain ⟨hd, hx, hvalue⟩ := Binary64.beq_iff.1 hreads
    have hequal : (x == toFloat d k) = true := Binary64.beq_iff.2 ⟨hx, hd, hvalue.symm⟩
    exact (Binary64.eq_of_beq hequal hfinite hquanta).symm

/-- Zero has the digit zero. -/
theorem shortest_zero (h : Binary64.ofFloat x = .finite false 0 e) : shortest x = (0, 0) := by
  unfold shortest
  rw [h]
  exact if_pos ((Binary64.ratio_eq_zero_iff 0 e).2 rfl)

end RobotHand.Decimal
