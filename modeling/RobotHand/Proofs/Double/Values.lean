import RobotHand.Proofs.Double.Halves

/-! The exact values of doubles as rational numbers. -/
namespace RobotHand.Binary64

/-- The exact value of a finite double. -/
def value : Binary64 → ℚ
  | finite negative s e => if negative then -(s * (2 : ℚ) ^ e) else s * (2 : ℚ) ^ e
  | _ => 0

theorem ratio_div (s : Nat) (e : Int) :
    ((ratio s e).1 : ℚ) / (ratio s e).2 = s * (2 : ℚ) ^ e := by
  unfold ratio
  split
  · next h =>
    have he : (2 : ℚ) ^ e = 2 ^ e.toNat := by
      conv_lhs => rw [← Int.toNat_of_nonneg h]
      exact zpow_natCast 2 e.toNat
    rw [he]
    simp
  · next h =>
    have he : (2 : ℚ) ^ e = (2 ^ (-e).toNat)⁻¹ := by
      conv_lhs => rw [← neg_neg e, ← Int.toNat_of_nonneg (by omega : 0 ≤ -e)]
      rw [zpow_neg, zpow_natCast]
    rw [he, div_eq_mul_inv]
    simp

/-- A finite double bounds a natural number exactly if its value does. -/
theorem natLe_iff {b : Binary64} (h : b.isFinite) (n : Nat) : b.natLe n ↔ (n : ℚ) ≤ b.value := by
  match b, h with
  | .finite negative s e, _ =>
    have hq : (0 : ℚ) < (ratio s e).2 := Nat.cast_pos.2 (ratio_pos s e)
    cases negative with
    | true =>
      have hdef : (finite true s e).natLe n ↔ n = 0 ∧ (ratio s e).1 = 0 := by simp [natLe]
      have hn : (0 : ℚ) ≤ n := Nat.cast_nonneg n
      have hs : (0 : ℚ) ≤ s * (2 : ℚ) ^ e := by positivity
      rw [hdef, value, if_pos rfl]
      constructor
      · rintro ⟨rfl, hzero⟩
        rw [← ratio_div, hzero]
        simp
      · intro hle
        -- Nothing but zero lies between the number and the value.
        have hvalue : (s : ℚ) * 2 ^ e = 0 := by linarith
        have hnumber : (n : ℚ) = 0 := by linarith
        rw [← ratio_div, div_eq_zero_iff] at hvalue
        exact ⟨Nat.cast_eq_zero.1 hnumber, Nat.cast_eq_zero.1 (hvalue.resolve_right hq.ne')⟩
    | false =>
      have hdef : (finite false s e).natLe n ↔ n * (ratio s e).2 ≤ (ratio s e).1 := by simp [natLe]
      rw [hdef, value, if_neg Bool.false_ne_true, ← ratio_div, le_div_iff₀ hq]
      exact_mod_cast Iff.rfl

/-- A double has its value in units of the least one. -/
theorem value_eq_div {b : Binary64} (h : b.isFinite) (hs : b.Scaled) :
    b.value = b.quanta / unit := by
  match b, h with
  | .finite negative s e, _ =>
    have hq : ((ratio s e).2 : ℚ) ≠ 0 := Nat.cast_ne_zero.2 (ratio_pos s e).ne'
    have hu : (unit : ℚ) ≠ 0 := Nat.cast_ne_zero.2 unit_pos.ne'
    have hscaled : (s : ℚ) * 2 ^ e = scaled s e / unit := by
      rw [← ratio_div, div_eq_div_iff hq hu]
      exact_mod_cast (scaled_mul_ratio s hs.2.1).symm
    cases negative with
    | true =>
      rw [value, if_pos rfl, quanta, signed, if_pos rfl, hscaled, Int.cast_neg, neg_div]
      rfl
    | false =>
      rw [value, if_neg Bool.false_ne_true, quanta, signed, if_neg Bool.false_ne_true, hscaled]
      rfl

theorem value_ofFloat {x : Float} (h : (ofFloat x).isFinite) :
    (ofFloat x).value = quantaOf x / unit :=
  value_eq_div h (ofFloat_scaled x)

theorem le_iff_value_le {x y : Float} (hx : (ofFloat x).isFinite) (hy : (ofFloat y).isFinite) :
    x ≤ y ↔ (ofFloat x).value ≤ (ofFloat y).value := by
  have hu : (0 : ℚ) < unit := Nat.cast_pos.2 unit_pos
  rw [le_iff (ne_nan_of_isFinite hx) (ne_nan_of_isFinite hy), value_ofFloat hx, value_ofFloat hy,
    div_le_div_iff_of_pos_right hu, Int.cast_le]

end RobotHand.Binary64
