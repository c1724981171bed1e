import RobotHand.Proofs.Double.Integers

/-! Doubles rounded to integers: the floor, and the nearest integer with halves up. -/
namespace RobotHand.Binary64

theorem ratio_pos (s : Nat) (e : Int) : 0 < (ratio s e).2 := by
  unfold ratio
  split
  · exact Nat.one_pos
  · exact Nat.two_pow_pos _

/-- A double is the quotient of its ratio. -/
theorem scaled_mul_ratio (s : Nat) {e : Int} (he : leastExponent ≤ e) :
    scaled s e * (ratio s e).2 = (ratio s e).1 * unit := by
  have hmin : leastExponent = -1074 := rfl
  unfold ratio unit scaled
  split
  · next h =>
    have hsum : (e - leastExponent).toNat = e.toNat + (0 - leastExponent).toNat := by omega
    rw [hsum, Nat.pow_add]
    simp only [Nat.mul_one, Nat.one_mul, Nat.mul_assoc]
    rfl
  · next h =>
    have hsum : (0 - leastExponent).toNat = (e - leastExponent).toNat + (-e).toNat := by omega
    rw [hsum, Nat.pow_add]
    simp only [Nat.one_mul, Nat.mul_assoc]
    rfl

/-- The floor of a finite double. -/
theorem floor_spec {b : Binary64} (hf : b.isFinite) (hs : b.Scaled) :
    ∃ n : Int, b.floor = .ok n ∧ n * unit ≤ b.quanta ∧ b.quanta < (n + 1) * unit := by
  match b, hf with
  | .finite a s e, _ =>
    have hval := scaled_mul_ratio s hs.2.1
    have hq : (0 : Int) < (ratio s e).2 := Int.natCast_pos.2 (ratio_pos s e)
    have hu : (0 : Int) < unit := Int.natCast_pos.2 unit_pos
    have hcast : (scaled s e : Int) * (ratio s e).2 = (ratio s e).1 * unit := by
      exact_mod_cast hval
    have hsigned : signed a (scaled s e) * (ratio s e).2 = signed a (ratio s e).1 * unit := by
      cases a <;> simp [hcast]
    refine ⟨signed a (ratio s e).1 / (ratio s e).2, by cases a <;> rfl, ?_, ?_⟩
    · refine Int.le_of_mul_le_mul_right ?_ hq
      rw [quanta, hsigned, Int.mul_right_comm]
      exact Int.mul_le_mul_of_nonneg_right (Int.ediv_mul_le _ (Int.ne_of_gt hq)) (Int.le_of_lt hu)
    · refine Int.lt_of_mul_lt_mul_right ?_ (Int.le_of_lt hq)
      rw [quanta, hsigned, Int.mul_right_comm]
      exact Int.mul_lt_mul_of_pos_right (Int.lt_ediv_add_one_mul_self _ hq) hu

/-- One half in units of the least double. -/
@[irreducible] def half : Nat := scaled 1 (-1)

theorem half_pos : 0 < half := by
  unfold half
  exact scaled_pos (by decide) (-1)

theorem unit_eq : unit = 2 * half := by
  have hone : scaled 1 0 = scaled (2 * 1) (-1) := scaled_add 1 1 (by decide) (by decide)
  rw [unit, half, hone, scaled_mul_left]

theorem quantaOf_half : quantaOf 0.5 = half := by
  have hview : ofFloat 0.5 = finite false hidden (-53) := by decide
  have hval : scaled 1 (-1) = scaled hidden (-53) := scaled_add 1 52 (by decide) (by decide)
  rw [quantaOf, hview, half, hval]
  rfl

theorem representable_half {i : Int} (h : i.natAbs ≤ 2 ^ 51) :
    Representable (i * unit + half).natAbs := by
  have hfactor : i * unit + half = (2 * i + 1) * half := by
    rw [unit_eq, Int.add_mul]
    push_cast
    rw [Int.one_mul, ← Int.mul_assoc, Int.mul_comm i 2]
  refine ⟨(2 * i + 1).natAbs, (-1 - leastExponent).toNat, ?_, by decide, ?_⟩
  · have hhid : hidden = 0x10000000000000 := rfl
    omega
  · rw [hfactor, Int.natAbs_mul, Int.natAbs_natCast, half, scaled, Nat.one_mul]

theorem representable_unit {i : Int} (h : i.natAbs ≤ 2 ^ 51) :
    Representable (i * unit).natAbs := by
  refine ⟨i.natAbs, (0 - leastExponent).toNat, ?_, by decide, ?_⟩
  · have hhid : hidden = 0x10000000000000 := rfl
    omega
  · rw [Int.natAbs_mul, Int.natAbs_natCast, unit, scaled, Nat.one_mul]

theorem hidden_mul_unit_lt_beyond : hidden * unit < beyond := by
  unfold unit beyond
  rw [← scaled_mul_left]
  exact scaled_lt_scaled (by decide) (by decide) (by decide) (by decide)

variable {x : Float} {low high : Int}

/-- Rounding half up takes the floor of a sum that stays in the range where halves are exact. -/
theorem roundHalfUp_floor (hf : (ofFloat x).isFinite) (hl : low.natAbs ≤ 2 ^ 51)
    (hh : high.natAbs ≤ 2 ^ 51) (hlow : low * unit ≤ quantaOf x)
    (hhigh : quantaOf x ≤ high * unit) :
    ∃ n, roundHalfUp x = .ok n ∧ n * unit ≤ quantaOf (x + 0.5) ∧
      quantaOf (x + 0.5) < (n + 1) * unit ∧ low * unit ≤ quantaOf (x + 0.5) ∧
      quantaOf (x + 0.5) ≤ high * unit + half := by
  have hhalf := half_pos
  have hunit := unit_eq
  have hhf : (ofFloat 0.5).isFinite := by decide
  obtain ⟨hnan, hr⟩ := add_rounds hf hhf
  rw [quantaOf_half] at hr
  have hsumlow : low * unit ≤ quantaOf (x + 0.5) :=
    (hr _ (representable_unit hl)).2 (by omega)
  have hsumhigh : quantaOf (x + 0.5) ≤ high * unit + half :=
    (hr _ (representable_half hh)).1 (by omega)
  -- The sum is at most a half beyond `2 ^ 51`, far from infinity.
  have hfin : (ofFloat (x + 0.5)).isFinite := by
    have hbound := hidden_mul_unit_lt_beyond
    rw [hidden] at hbound
    have hleast : -(2 ^ 51) * (unit : Int) ≤ low * unit :=
      Int.mul_le_mul_of_nonneg_right (by omega) (by omega)
    have hmost : high * unit ≤ 2 ^ 51 * unit :=
      Int.mul_le_mul_of_nonneg_right (by omega) (by omega)
    apply isFinite_of_lt_beyond hnan
    · change -(beyond : Int) < quantaOf (x + 0.5)
      omega
    · change quantaOf (x + 0.5) < beyond
      omega
  obtain ⟨n, hn, hle, hlt⟩ := floor_spec hfin (ofFloat_scaled _)
  exact ⟨n, hn, hle, hlt, hsumlow, hsumhigh⟩

/-- Rounding half up keeps a value between whole numbers in the range where halves are exact. -/
theorem roundHalfUp_spec (hf : (ofFloat x).isFinite) (hl : low.natAbs ≤ 2 ^ 51)
    (hh : high.natAbs ≤ 2 ^ 51) (hlow : low * unit ≤ quantaOf x)
    (hhigh : quantaOf x ≤ high * unit) :
    ∃ n, roundHalfUp x = .ok n ∧ low ≤ n ∧ n ≤ high := by
  have hhalf := half_pos
  have hunit := unit_eq
  obtain ⟨n, hn, hle, hlt, hsumlow, hsumhigh⟩ := roundHalfUp_floor hf hl hh hlow hhigh
  have hfirst : low < n + 1 := Int.lt_of_mul_lt_mul_right (a := unit) (by omega) (by omega)
  have hnext : (high + 1) * (unit : Int) = high * unit + unit := by rw [Int.add_mul, Int.one_mul]
  have hlast : n < high + 1 := Int.lt_of_mul_lt_mul_right (a := unit) (by omega) (by omega)
  exact ⟨n, hn, by omega, by omega⟩

end RobotHand.Binary64
