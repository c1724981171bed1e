import RobotHand.Proofs.Double.Halves
import RobotHand.Proofs.Double.Identity

/-! Adding one half and taking the floor rounds to the nearest integer, halves up, but for a single
double. -/
namespace RobotHand.Binary64

variable {x : Float} {negative : Bool} {s : Nat} {e n : Int}

theorem scaled_eq_mul (s : Nat) (e : Int) : scaled s e = s * scaled 1 e := by
  rw [← scaled_mul_left, Nat.mul_one]

theorem representable_mul {k : Int} (hk : k.natAbs ≤ 2 * hidden) (he : e ≤ greatestExponent) :
    Representable (k * scaled 1 e).natAbs := by
  refine ⟨k.natAbs, (e - leastExponent).toNat, hk, by omega, ?_⟩
  rw [Int.natAbs_mul, Int.natAbs_natCast, scaled, Nat.one_mul]

/-- The greatest double below one half, in units of the least one. -/
def belowHalf : Nat := scaled (2 * hidden - 1) (-54)

theorem quantaOf_belowHalf : quantaOf 0.49999999999999994 = belowHalf := by
  have hview : ofFloat 0.49999999999999994 = finite false (2 * hidden - 1) (-54) := by decide
  rw [quantaOf, hview]
  rfl

/-- A representable value keeps a sum from being rounded to the integer after another. -/
def RoundsBelow (n sum : Int) : Prop :=
  ∃ q : Int, Representable q.natAbs ∧ sum ≤ q ∧ q < (n + 1) * unit

theorem unit_le_next (hn : 0 < (n + 1) * (unit : Int)) : (unit : Int) ≤ (n + 1) * unit := by
  have hunit : (0 : Int) < unit := Int.natCast_pos.2 unit_pos
  have hone : 1 ≤ n + 1 := Int.pos_of_mul_pos_left hn hunit
  have hle : 1 * (unit : Int) ≤ (n + 1) * unit :=
    Int.mul_le_mul_of_nonneg_right hone (Int.le_of_lt hunit)
  rwa [Int.one_mul] at hle

/-- A double as coarse as one half has an exact sum with it. -/
theorem roundsBelow_of_coarse (he : -1 ≤ e)
    (hlow : -(2 ^ 51) * (unit : Int) ≤ signed negative (scaled s e))
    (hhigh : signed negative (scaled s e) ≤ 2 ^ 51 * (unit : Int))
    (hlt : signed negative (scaled s e) + half < (n + 1) * unit) :
    RoundsBelow n (signed negative (scaled s e) + half) := by
  obtain ⟨m, hm⟩ : ∃ m : Nat, scaled s e = m * half := by
    refine ⟨s * 2 ^ (e + 1).toNat, ?_⟩
    rw [half, ← scaled_eq_mul]
    exact scaled_add s _ (by decide) (by omega)
  obtain ⟨k, hk⟩ : ∃ k : Int, signed negative (scaled s e) = k * half := by
    cases negative with
    | true => exact ⟨-m, by rw [signed, if_pos rfl, hm, Int.neg_mul, Int.natCast_mul]⟩
    | false => exact ⟨m, by rw [signed, if_neg Bool.false_ne_true, hm, Int.natCast_mul]⟩
  have hhalf : (0 : Int) < half := Int.natCast_pos.2 half_pos
  have hunit := unit_eq
  refine ⟨_, ?_, Int.le_refl _, hlt⟩
  rw [hk] at hlow hhigh ⊢
  have hleast : -(2 ^ 52) ≤ k := by
    refine Int.le_of_mul_le_mul_right (Int.le_trans ?_ hlow) hhalf
    omega
  have hmost : k ≤ 2 ^ 52 := by
    refine Int.le_of_mul_le_mul_right (Int.le_trans hhigh ?_) hhalf
    omega
  have hsum : k * half + half = (k + 1) * (half : Int) := by rw [Int.add_mul, Int.one_mul]
  rw [hsum, half]
  refine representable_mul ?_ (by decide)
  rw [hidden]
  omega

/-- One half in units of a finer double. -/
theorem exists_half_eq_mul (hleast : leastExponent ≤ e) (he : e < -1) :
    ∃ h : Nat, half = h * scaled 1 e := by
  refine ⟨1 * 2 ^ (-1 - e).toNat, ?_⟩
  rw [half, ← scaled_eq_mul]
  exact scaled_add 1 _ hleast (by omega)

theorem roundsBelow_of_negative (hs : s < 2 * hidden) (hleast : leastExponent ≤ e) (he : e < -1)
    (hlt : -(scaled s e : Int) + half < (n + 1) * unit) :
    RoundsBelow n (-(scaled s e : Int) + half) := by
  have hmax : greatestExponent = 971 := rfl
  obtain ⟨h, hh⟩ := exists_half_eq_mul hleast he
  have hsum : -(scaled s e : Int) + half = (h - s) * (scaled 1 e : Int) := by
    rw [scaled_eq_mul s, hh]
    push_cast
    ring
  have hu : (0 : Int) ≤ scaled 1 e := Int.natCast_nonneg _
  have hunit := unit_eq
  have hhalf := half_pos
  by_cases hsh : s ≤ h
  · have hpos : 0 ≤ (h - s) * (scaled 1 e : Int) := Int.mul_nonneg (by omega) hu
    have hnext := unit_le_next (n := n) (by omega)
    refine ⟨half, ?_, by omega, by omega⟩
    rw [half, ← Int.one_mul (scaled 1 (-1) : Int)]
    exact representable_mul (by decide) (by decide)
  · rw [hsum] at hlt ⊢
    exact ⟨_, representable_mul (by omega) (by omega), Int.le_refl _, hlt⟩

/-- A sum that grows out of the format is a whole number and less than one half. -/
theorem roundsBelow_of_carry (hs : s < 2 * hidden) (he : -53 ≤ e) {h : Nat}
    (hh : half = h * scaled 1 e) (hcarry : 2 * hidden < s + h)
    (hhigh : (scaled s e : Int) ≤ 2 ^ 51 * unit)
    (hlt : (scaled s e : Int) + half < (n + 1) * unit) :
    RoundsBelow n ((scaled s e : Int) + half) := by
  have hunit := unit_eq
  have hhalf := half_pos
  have hu : 0 < scaled 1 e := scaled_pos Nat.one_pos e
  have hmin : leastExponent = -1074 := rfl
  obtain ⟨m, hm⟩ : ∃ m : Nat, 2 * hidden * scaled 1 e = m * unit := by
    refine ⟨1 * 2 ^ (e + 53).toNat, ?_⟩
    rw [unit, ← scaled_eq_mul, ← scaled_eq_mul,
      ← scaled_add 1 (e + 53).toNat (f := e + 53) (by decide) (by omega)]
    exact (scaled_add 1 53 (by omega) rfl).symm
  have hbelow : scaled s e < m * unit := by
    rw [← hm, scaled_eq_mul s]
    exact Nat.mul_lt_mul_of_pos_right hs hu
  have habove : m * unit < scaled s e + half := by
    rw [← hm, scaled_eq_mul s, hh, ← Nat.add_mul]
    exact Nat.mul_lt_mul_of_pos_right hcarry hu
  zify at hbelow habove hunit hhalf
  have hmost : (m : Int) < 2 ^ 51 + 1 := by
    refine Int.lt_of_mul_lt_mul_right (a := unit) ?_ (by omega)
    omega
  have hnext : (m : Int) < n + 1 :=
    Int.lt_of_mul_lt_mul_right (by omega) (by omega : 0 ≤ (unit : Int))
  have hle : ((m : Int) + 1) * unit ≤ (n + 1) * unit :=
    Int.mul_le_mul_of_nonneg_right hnext (by omega)
  rw [Int.add_mul, Int.one_mul] at hle
  exact ⟨m * unit + half, representable_half (by omega), by omega, by omega⟩

/-- The sum of one half with a double below the greatest below one half lies below one. -/
theorem roundsBelow_of_small (hs : s < 2 * hidden) (hleast : leastExponent ≤ e) (he : e < -53)
    (hne : (scaled s e : Int) ≠ belowHalf)
    (hlt : (scaled s e : Int) + half < (n + 1) * unit) :
    RoundsBelow n ((scaled s e : Int) + half) := by
  have hunit := unit_eq
  have hhalf := half_pos
  have hnext := unit_le_next (n := n) (by omega)
  by_cases hfine : e < -54
  · have hquarter : half = 2 * scaled 1 (-2) := by
      rw [← scaled_eq_mul, half]
      exact scaled_add 1 1 (by decide) (by decide)
    have hbelow : scaled s e < scaled 1 (-2) := by
      rw [scaled_add 1 52 (e := -54) (by decide) (by decide)]
      exact scaled_lt_scaled hs hleast (by decide) hfine
    exact ⟨3 * scaled 1 (-2), representable_mul (by decide) (by decide), by omega, by omega⟩
  · obtain rfl : e = -54 := by omega
    have hfew : s + 2 ≤ 2 * hidden := by
      have hnot : s ≠ 2 * hidden - 1 := by
        rintro rfl
        exact hne rfl
      omega
    have hdouble : scaled 1 (-53) = 2 * scaled 1 (-54) := by
      rw [← scaled_eq_mul]
      exact scaled_add 1 1 (by decide) (by decide)
    have hwhole : half = 2 * hidden * scaled 1 (-54) := by
      rw [← scaled_eq_mul, half]
      exact scaled_add 1 53 (by decide) (by decide)
    have hless := Nat.mul_le_mul_right (scaled 1 (-54)) hfew
    rw [Nat.add_mul, ← scaled_eq_mul, ← hwhole] at hless
    have hpos : 0 < scaled 1 (-54) := scaled_pos Nat.one_pos _
    have hgreatest : (2 * hidden - 1 : Int) * scaled 1 (-53) = 2 * half - 2 * scaled 1 (-54) := by
      rw [hwhole, hdouble]
      push_cast
      ring
    exact ⟨(2 * hidden - 1 : Int) * scaled 1 (-53), representable_mul (by decide) (by decide),
      by omega, by omega⟩

/-- Between the sum of a double with one half and the next integer lies a representable value,
unless the double is the greatest below one half. -/
theorem roundsBelow_of_scaled (hscaled : (finite negative s e).Scaled)
    (hlow : -(2 ^ 51) * (unit : Int) ≤ signed negative (scaled s e))
    (hhigh : signed negative (scaled s e) ≤ 2 ^ 51 * (unit : Int))
    (hne : signed negative (scaled s e) ≠ belowHalf)
    (hlt : signed negative (scaled s e) + half < (n + 1) * unit) :
    RoundsBelow n (signed negative (scaled s e) + half) := by
  obtain ⟨hs, hleast, -⟩ := hscaled
  by_cases he : -1 ≤ e
  · exact roundsBelow_of_coarse he hlow hhigh hlt
  obtain ⟨h, hh⟩ := exists_half_eq_mul hleast (by omega)
  cases negative with
  | true => exact roundsBelow_of_negative hs hleast (by omega) hlt
  | false =>
    by_cases hfew : s + h ≤ 2 * hidden
    · refine ⟨_, ?_, Int.le_refl _, hlt⟩
      have hsum : (scaled s e : Int) + half = (s + h : Nat) * scaled 1 e := by
        rw [scaled_eq_mul s, hh, ← Int.natCast_add, ← Nat.add_mul, Int.natCast_mul]
      rw [signed, if_neg Bool.false_ne_true, hsum]
      have hmax : greatestExponent = 971 := rfl
      exact representable_mul (by omega) (by omega)
    · by_cases hlarge : -53 ≤ e
      · exact roundsBelow_of_carry hs hlarge hh (by omega) hhigh hlt
      · exact roundsBelow_of_small hs hleast (by omega) hne hlt

/-- The rounded sum of a float with one half lies between the same integers as the exact sum. -/
theorem add_half_bounds (hx : (ofFloat x).isFinite) (hn : n.natAbs ≤ 2 ^ 51)
    (hle : n * unit ≤ quantaOf x + half) (hbelow : RoundsBelow n (quantaOf x + half)) :
    n * unit ≤ quantaOf (x + 0.5) ∧ quantaOf (x + 0.5) < (n + 1) * unit := by
  obtain ⟨q, hq, hsum, hnext⟩ := hbelow
  obtain ⟨-, hrounds⟩ := add_rounds hx (by decide : (ofFloat 0.5).isFinite)
  rw [quantaOf_half] at hrounds
  have habove : quantaOf (x + 0.5) ≤ q := (hrounds q hq).1 hsum
  exact ⟨(hrounds _ (representable_unit (by omega))).2 hle, by omega⟩

theorem roundHalfUp_belowHalf (hx : (ofFloat x).isFinite) (h : quantaOf x = belowHalf) :
    roundHalfUp x = .ok 1 := by
  have hsame : x = 0.49999999999999994 := by
    refine eq_of_beq (beq_iff.2 ⟨ne_nan_of_isFinite hx, by decide, ?_⟩) hx ?_
    · rw [h, quantaOf_belowHalf]
    · have hpos : 0 < belowHalf := scaled_pos (by decide) _
      omega
  rw [hsame]
  decide +kernel

/-- A float is rounded half up exactly, unless it is the greatest below one half, which is rounded
to one. -/
theorem roundHalfUp_exact (hx : (ofFloat x).isFinite) (hlow : -(2 ^ 51) * (unit : Int) ≤ quantaOf x)
    (hhigh : quantaOf x ≤ 2 ^ 51 * (unit : Int)) :
    ∃ n, roundHalfUp x = .ok n ∧
      (quantaOf x ≠ belowHalf → n * unit ≤ quantaOf x + half ∧ quantaOf x + half < (n + 1) * unit) ∧
      (quantaOf x = belowHalf → n = 1) := by
  have hunit : (unit : Int) = 2 * half := by exact_mod_cast unit_eq
  have hhalf : (0 : Int) < half := Int.natCast_pos.2 half_pos
  obtain ⟨n, hn, hle, hlt, -, -⟩ := roundHalfUp_floor hx (by decide) (by decide) hlow hhigh
  refine ⟨n, hn, fun hne => ?_, fun heq => ?_⟩
  · obtain ⟨m, hm⟩ : ∃ m, (quantaOf x + half) / unit = m := ⟨_, rfl⟩
    have hmle : m * unit ≤ quantaOf x + half := hm ▸ Int.ediv_mul_le _ (by omega)
    have hmlt : quantaOf x + half < (m + 1) * unit := hm ▸ Int.lt_ediv_add_one_mul_self _ (by omega)
    have hleast : -(2 ^ 51) < m + 1 := Int.lt_of_mul_lt_mul_right (a := unit) (by omega) (by omega)
    have hmost : m < 2 ^ 51 + 1 := Int.lt_of_mul_lt_mul_right (a := unit) (by omega) (by omega)
    have hbelow : RoundsBelow m (quantaOf x + half) := by
      obtain ⟨negative, s, e, hview⟩ := exists_of_isFinite hx
      have hscaled := ofFloat_scaled x
      unfold quantaOf at hlow hhigh hne hmlt ⊢
      rw [hview] at hscaled hlow hhigh hne hmlt ⊢
      exact roundsBelow_of_scaled hscaled hlow hhigh hne hmlt
    -- The integers below the rounded and below the exact sum are the same.
    obtain ⟨hfloor, hceil⟩ := add_half_bounds hx (by omega) hmle hbelow
    have hfirst : m < n + 1 := Int.lt_of_mul_lt_mul_right (a := unit) (by omega) (by omega)
    have hsecond : n < m + 1 := Int.lt_of_mul_lt_mul_right (a := unit) (by omega) (by omega)
    obtain rfl : n = m := by omega
    exact ⟨hmle, hmlt⟩
  · exact Except.ok.inj (hn.symm.trans (roundHalfUp_belowHalf hx heq))

end RobotHand.Binary64
