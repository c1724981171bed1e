import RobotHand.Proofs.Double.Packing

/-! Rounding to the format: the result lies on the same side of every representable value. -/
namespace RobotHand.Binary64

open Float.Model Float.Model.UnpackedFloat

/-- A multiple of the least double that is itself a double, or the power of two after the
greatest. -/
def Representable (q : Nat) : Prop :=
  ∃ n g : Nat, n ≤ 2 * hidden ∧ g ≤ (greatestExponent - leastExponent).toNat ∧ q = n * 2 ^ g

/-- `k` is not beyond any representable value that `n` is not beyond. -/
def Rounds (n k : Nat) : Prop :=
  ∀ q, Representable q → (n ≤ q → k ≤ q) ∧ (q ≤ n → q ≤ k)

theorem shiftRight_spec (m n : Nat) :
    ((⟨m, false, false⟩ : ExtendedMantissa) >>> n).mantissa = m / 2 ^ n ∧
      (((⟨m, false, false⟩ : ExtendedMantissa) >>> n).roundBit = false ∧
        ((⟨m, false, false⟩ : ExtendedMantissa) >>> n).stickyBit = false ↔ m % 2 ^ n = 0) := by
  induction n with
  | zero => simp [HShiftRight.hShiftRight, Nat.repeat, Nat.mod_one]
  | succ n ih =>
    generalize hem : (⟨m, false, false⟩ : ExtendedMantissa) >>> n = em at ih
    obtain ⟨hm, hb⟩ := ih
    have hstep : (⟨m, false, false⟩ : ExtendedMantissa) >>> (n + 1) = em.shiftRightOne := by
      rw [← hem]
      rfl
    rw [hstep]
    have hmod : m % 2 ^ (n + 1) = m % 2 ^ n + 2 ^ n * (m / 2 ^ n % 2) := Nat.mod_mul
    have hpos : 0 < 2 ^ n := Nat.two_pow_pos n
    constructor
    · rw [Nat.pow_succ, ← Nat.div_div_eq_div_mul, ← hm]
      rfl
    · rw [hmod, ← hm]
      simp only [ExtendedMantissa.shiftRightOne, Bool.or_eq_false_iff, hb]
      rw [Nat.add_eq_zero_iff, Nat.mul_eq_zero, bne_eq_false_iff_eq, and_comm]
      exact and_congr_right fun _ => ⟨.inr, fun h => h.resolve_left (Nat.ne_of_gt hpos)⟩

/-- Rounding a shifted significand stays on its side of every whole number. -/
theorem roundedMantissa_shiftRight (m n j : Nat) :
    (m ≤ j * 2 ^ n → ((⟨m, false, false⟩ : ExtendedMantissa) >>> n).roundedMantissa ≤ j) ∧
      (j * 2 ^ n ≤ m → j ≤ ((⟨m, false, false⟩ : ExtendedMantissa) >>> n).roundedMantissa) := by
  obtain ⟨hm, hb⟩ := shiftRight_spec m n
  generalize (⟨m, false, false⟩ : ExtendedMantissa) >>> n = em at *
  obtain ⟨k, b, t⟩ := em
  simp only at hm hb
  have hlow : k ≤ ExtendedMantissa.roundedMantissa ⟨k, b, t⟩ := by
    cases b <;> cases t <;> simp [ExtendedMantissa.roundedMantissa, ExtendedMantissa.accuracy,
      Accuracy.roundToNearestEven]
  have hpos : 0 < 2 ^ n := Nat.two_pow_pos n
  refine ⟨fun h => ?_, fun h => Nat.le_trans ?_ hlow⟩
  · -- Rounding up is the only danger, and it needs bits that were shifted out.
    by_cases hexact : m % 2 ^ n = 0
    · obtain ⟨rfl, rfl⟩ := hb.2 hexact
      change k ≤ j
      rw [hm]
      exact Nat.div_le_of_le_mul (Nat.mul_comm j _ ▸ h)
    · have hhigh : ExtendedMantissa.roundedMantissa ⟨k, b, t⟩ ≤ k + 1 := by
        cases b <;> cases t <;> simp [ExtendedMantissa.roundedMantissa, ExtendedMantissa.accuracy,
          Accuracy.roundToNearestEven]
        omega
      have hlt : m < j * 2 ^ n := by
        refine Nat.lt_of_le_of_ne h fun heq => hexact ?_
        rw [heq, Nat.mul_mod_left]
      have : k < j := by
        rw [hm]
        exact Nat.div_lt_of_lt_mul (Nat.mul_comm j _ ▸ hlt)
      omega
  · rw [hm]
    exact (Nat.le_div_iff_mul_le hpos).2 h

theorem target_eq (m : Nat) (e : Int) :
    Format.binary64.targetExponent (totalExponent m e) = max (m.log2 + e - 52) leastExponent := by
  change max ((m.log2 : Int) + 1 + e - 53) (-1074) = max (m.log2 + e - 52) (-1074)
  omega

theorem shiftToTargetExponent_eq {m : Nat} {e t : Int}
    (ht : max (m.log2 + e - 52) leastExponent = t) (he : e ≤ t) :
    shiftToTargetExponent .binary64 m e .exact =
      ((⟨m, false, false⟩ : ExtendedMantissa) >>> (t - e).toNat, t) := by
  simp only [shiftToTargetExponent, target_eq, ht, shiftToExponent,
    ExtendedMantissa.ofMantissaAndAccuracy]
  congr 1
  omega

/-- Nothing needs to be rounded after the first shift, but a significand that has been rounded up
out of the format is halved. -/
theorem shiftToTargetExponent_rounded {k : Nat} {t : Int} (hk : k ≤ 2 * hidden)
    (ht : leastExponent ≤ t) (hn : hidden ≤ k ∨ t = leastExponent) :
    shiftToTargetExponent .binary64 k t .exact =
      if k = 2 * hidden then (⟨hidden, false, false⟩, t + 1) else (⟨k, false, false⟩, t) := by
  split
  · next h =>
    have hlog : k.log2 = 53 := by rw [h]; decide
    have hshift : (t + 1 - t).toNat = 1 := by omega
    rw [shiftToTargetExponent_eq (t := t + 1) (by omega) (by omega), hshift, h]
    rfl
  · next h =>
    have hlow : hidden ≤ k → 52 ≤ k.log2 := fun hf =>
      (Nat.le_log2 (Nat.ne_of_gt (Nat.lt_of_lt_of_le (by decide) hf))).2 hf
    have hhigh : k.log2 < 53 := by
      by_cases hz : k = 0
      · rw [hz]
        decide
      · exact (Nat.log2_lt hz).2 (by rw [hidden] at *; omega)
    rw [shiftToTargetExponent_eq (t := t) (by omega) (Int.le_refl t), Int.sub_self]
    rfl

/-- A rounded significand, before and after it is brought back into the format. -/
theorem roundWithAccuracy_eq {s : Sign} {m k : Nat} {e t : Int}
    (ht : max (m.log2 + e - 52) leastExponent = t) (he : e ≤ t)
    (hr : ((⟨m, false, false⟩ : ExtendedMantissa) >>> (t - e).toNat).roundedMantissa = k)
    (hk : k ≤ 2 * hidden) (hn : hidden ≤ k ∨ t = leastExponent) :
    ofUnpacked (roundWithAccuracy .binary64 s m e .exact) =
      if k = 2 * hidden then finite (minus s) hidden (t + 1) else finite (minus s) k t := by
  unfold roundWithAccuracy
  rw [shiftToTargetExponent_eq ht he]
  dsimp only
  rw [hr, shiftToTargetExponent_rounded hk (by omega) hn]
  by_cases hover : k = 2 * hidden
  · rw [if_pos hover, if_pos hover]
    rfl
  · rw [if_neg hover, if_neg hover]
    by_cases hz : k = 0
    · subst hz
      rw [hn.resolve_left (by decide)]
      rfl
    · rw [dif_neg hz]
      rfl

/-- The value of a significand and an exponent in units of the least double. -/
@[irreducible] def scaled (s : Nat) (e : Int) : Nat := s * 2 ^ (e - leastExponent).toNat

theorem scaled_mul (m : Nat) {e t : Int} (he : leastExponent ≤ e) (ht : e ≤ t) :
    scaled m t = m * 2 ^ (t - e).toNat * 2 ^ (e - leastExponent).toNat := by
  have hsum : (t - leastExponent).toNat = (t - e).toNat + (e - leastExponent).toNat := by omega
  rw [scaled, hsum, Nat.pow_add, Nat.mul_assoc]

theorem scaled_add (m n : Nat) {e f : Int} (he : leastExponent ≤ e) (hf : f = e + n) :
    scaled m f = scaled (m * 2 ^ n) e := by
  have hexp : (f - e).toNat = n := by omega
  rw [scaled_mul m he (by omega), hexp, ← scaled]

theorem scaled_mul_left (m n : Nat) (e : Int) : scaled (m * n) e = m * scaled n e := by
  rw [scaled, scaled, Nat.mul_assoc]

theorem scaled_le_scaled {m n : Nat} {e f : Int} (hm : m ≤ n) (he : e ≤ f) :
    scaled m e ≤ scaled n f := by
  rw [scaled, scaled]
  exact Nat.mul_le_mul hm (Nat.pow_le_pow_right (by decide) (by omega))

theorem scaled_lt_scaled_of_lt {m n : Nat} (h : m < n) (e : Int) : scaled m e < scaled n e := by
  rw [scaled, scaled]
  exact Nat.mul_lt_mul_of_pos_right h (Nat.two_pow_pos _)

@[simp] theorem scaled_zero (e : Int) : scaled 0 e = 0 := by
  rw [scaled, Nat.zero_mul]

theorem scaled_pos {m : Nat} (hm : 0 < m) (e : Int) : 0 < scaled m e := by
  rw [scaled]
  exact Nat.mul_pos hm (Nat.two_pow_pos _)

theorem carry_mul (g : Nat) : 2 * hidden * 2 ^ g = hidden * 2 ^ (g + 1) := by
  rw [Nat.pow_succ]
  ac_rfl

theorem rounds_of_units {n k t : Nat}
    (h : ∀ j, (n ≤ j * 2 ^ t → k ≤ j) ∧ (j * 2 ^ t ≤ n → j ≤ k))
    (hfull : hidden * 2 ^ t ≤ n ∨ t = 0) : Rounds n (k * 2 ^ t) := by
  rintro q ⟨a, g, ha, -, rfl⟩
  by_cases hg : t ≤ g
  · have hunits : a * 2 ^ g = a * 2 ^ (g - t) * 2 ^ t := by
      rw [Nat.mul_assoc, ← Nat.pow_add, Nat.sub_add_cancel hg]
    rw [hunits]
    exact ⟨fun hq => Nat.mul_le_mul_right _ ((h _).1 hq),
      fun hq => Nat.mul_le_mul_right _ ((h _).2 hq)⟩
  · -- A value of a finer exponent is no whole number of units, but it is not above the least
    -- significand that fills the format.
    have hn : hidden * 2 ^ t ≤ n := hfull.resolve_right (by omega)
    have hq : a * 2 ^ g ≤ hidden * 2 ^ t := by
      calc a * 2 ^ g ≤ 2 * hidden * 2 ^ (t - 1) :=
            Nat.mul_le_mul ha (Nat.pow_le_pow_right (by decide) (by omega))
        _ = hidden * 2 ^ (t - 1 + 1) := carry_mul _
        _ = hidden * 2 ^ t := by rw [Nat.sub_add_cancel (by omega)]
    refine ⟨fun hle => ?_, fun _ => Nat.le_trans hq (Nat.mul_le_mul_right _ ((h _).2 hn))⟩
    have hk : k ≤ hidden := (h _).1 (Nat.le_trans hle hq)
    exact Nat.le_trans (Nat.mul_le_mul_right _ hk) (Nat.le_trans hn hle)

/-- A significand shifted to the right place is rounded once. -/
theorem roundWithAccuracy_spec (s : Sign) {m : Nat} {e : Int} (hm : 0 < m)
    (he : leastExponent ≤ e) (ht : e ≤ max (m.log2 + e - 52) leastExponent) :
    ∃ k t, ofUnpacked (roundWithAccuracy .binary64 s m e .exact) = finite (minus s) k t ∧
      (finite (minus s) k t).Scaled ∧ Rounds (scaled m e) (scaled k t) := by
  generalize hteq : max (m.log2 + e - 52) leastExponent = t at ht
  generalize hn : (t - e).toNat = n
  have hround := roundedMantissa_shiftRight m n
  generalize hr : ((⟨m, false, false⟩ : ExtendedMantissa) >>> n).roundedMantissa = r at hround
  have hsize : m ≤ 2 * hidden * 2 ^ n := by
    have hlt : m < 2 ^ (m.log2 + 1) := Nat.lt_log2_self
    have hle : 2 ^ (m.log2 + 1) ≤ 2 ^ (53 + n) := Nat.pow_le_pow_right (by decide) (by omega)
    rw [Nat.pow_add 2 53 n] at hle
    exact Nat.le_trans (Nat.le_of_lt hlt) hle
  have hfull : hidden * 2 ^ n ≤ m ∨ t = leastExponent := by
    refine Decidable.or_iff_not_imp_right.2 fun hl => ?_
    have hlog : m.log2 = 52 + n := by omega
    have hle : 2 ^ m.log2 ≤ m := Nat.log2_self_le (Nat.ne_of_gt hm)
    rw [hlog, Nat.pow_add] at hle
    exact hle
  have hunit : ∀ j, scaled j t = j * 2 ^ n * 2 ^ (e - leastExponent).toNat :=
    fun j => hn ▸ scaled_mul j he ht
  have hpos : 0 < 2 ^ (e - leastExponent).toNat := Nat.two_pow_pos _
  have hrounds : Rounds (scaled m e) (scaled r t) := by
    rw [scaled.eq_def r t]
    refine rounds_of_units (fun j => ?_) ?_
    · rw [← scaled, hunit, scaled]
      exact ⟨fun h => (hround j).1 (Nat.le_of_mul_le_mul_right h hpos),
        fun h => (hround j).2 (Nat.le_of_mul_le_mul_right h hpos)⟩
    · refine hfull.imp (fun h => ?_) fun h => by omega
      rw [← scaled, hunit, scaled]
      exact Nat.mul_le_mul_right _ h
  have hr53 : r ≤ 2 * hidden := (hround _).1 hsize
  have hr52 : hidden ≤ r ∨ t = leastExponent := hfull.imp_left (hround _).2
  have heq := roundWithAccuracy_eq (s := s) hteq ht (hn ▸ hr) hr53 hr52
  by_cases hover : r = 2 * hidden
  · rw [if_pos hover] at heq
    refine ⟨hidden, t + 1, heq, ⟨by decide, by omega, .inl (Nat.le_refl _)⟩, ?_⟩
    have hcarry : scaled hidden (t + 1) = scaled r t := by
      have hsucc : (t + 1 - leastExponent).toNat = (t - leastExponent).toNat + 1 := by omega
      rw [scaled, scaled, hover, hsucc, carry_mul]
    rw [hcarry]
    exact hrounds
  · rw [if_neg hover] at heq
    exact ⟨r, t, heq, ⟨by omega, by omega, hr52⟩, hrounds⟩

theorem log2_shiftLeft {m : Nat} (hm : m ≠ 0) (n : Nat) : (m <<< n).log2 = m.log2 + n := by
  induction n with
  | zero => simp
  | succ n ih =>
    have hne : m <<< n ≠ 0 := by
      rw [Nat.shiftLeft_eq]
      exact Nat.mul_ne_zero hm (Nat.ne_of_gt (Nat.two_pow_pos n))
    rw [Nat.shiftLeft_succ, Nat.log2_two_mul hne, ih, Nat.add_assoc]

/-- Rounding to the format gives a double on the same side of every representable value. -/
theorem round_spec (s : Sign) {m : Nat} {e : Int} (hm : 0 < m) (he : leastExponent ≤ e) :
    ∃ k t, ofUnpacked (UnpackedFloat.round .binary64 s m e) = finite (minus s) k t ∧
      (finite (minus s) k t).Scaled ∧ Rounds (scaled m e) (scaled k t) := by
  unfold UnpackedFloat.round
  rw [target_eq]
  simp only [decreaseExponent]
  generalize hn : (e - max (m.log2 + e - 52) leastExponent).toNat = n
  have hlog := log2_shiftLeft (Nat.ne_of_gt hm) n
  have hpos : 0 < m <<< n := by
    rw [Nat.shiftLeft_eq]
    exact Nat.mul_pos hm (Nat.two_pow_pos n)
  have hval : scaled (m <<< n) (e - n) = scaled m e := by
    have hsum : (e - leastExponent).toNat = n + (e - n - leastExponent).toNat := by omega
    rw [scaled, scaled, Nat.shiftLeft_eq, hsum, Nat.pow_add, Nat.mul_assoc]
  have hspec := roundWithAccuracy_spec s hpos (e := e - n) (by omega) (by omega)
  rw [hval] at hspec
  exact hspec

end RobotHand.Binary64
