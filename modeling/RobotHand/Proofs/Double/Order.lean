import RobotHand.Proofs.Double.Rounding

/-! The order of floats is the order of their values, counted in units of the least double. -/
namespace RobotHand.Binary64

open Float.Model Float.Model.UnpackedFloat

@[simp] def signed (negative : Bool) (n : Nat) : Int := if negative then -n else n

/-- The first power of two above the greatest double, in units of the least one. -/
@[irreducible] def beyond : Nat := scaled hidden (greatestExponent + 1)

/-- The value of a double in units of the least one. Infinity counts as the first power of two
above the greatest double, and a NaN as zero. -/
@[simp] def quanta : Binary64 → Int
  | nan => 0
  | infinite negative => signed negative beyond
  | finite negative s e => signed negative (scaled s e)

theorem scaled_lt_scaled {m n : Nat} {e f : Int} (hm : m < 2 * hidden) (he : leastExponent ≤ e)
    (hn : hidden ≤ n) (h : e < f) : scaled m e < scaled n f := by
  have hexp : (e - leastExponent).toNat + 1 ≤ (f - leastExponent).toNat := by omega
  calc scaled m e < scaled (2 * hidden) e := scaled_lt_scaled_of_lt hm e
    _ = hidden * 2 ^ ((e - leastExponent).toNat + 1) := by rw [scaled, carry_mul]
    _ ≤ hidden * 2 ^ (f - leastExponent).toNat :=
        Nat.mul_le_mul_left _ (Nat.pow_le_pow_right (by decide) hexp)
    _ = scaled hidden f := by rw [scaled]
    _ ≤ scaled n f := scaled_le_scaled hn (Int.le_refl f)

theorem beyond_pos : 0 < beyond := by
  unfold beyond
  exact scaled_pos (by decide) _

/-- Scaled doubles compare by exponent and then by significand. -/
theorem compare_scaled {a b : Bool} {m n : Nat} {e f : Int} (hm : (finite a m e).Scaled)
    (hn : (finite b n f).Scaled) :
    (compare e f).then (compare m n) = compare (scaled m e) (scaled n f) := by
  obtain ⟨hmu, hml, hmf⟩ := hm
  obtain ⟨hnu, hnl, hnf⟩ := hn
  rcases Int.lt_trichotomy e f with h | h | h
  · have hlt := scaled_lt_scaled hmu hml (hnf.resolve_right (by omega)) h
    rw [Int.compare_eq_lt.2 h, Nat.compare_eq_lt.2 hlt]
    rfl
  · subst h
    rw [Int.compare_eq_eq.2 rfl]
    change compare m n = _
    rcases Nat.lt_trichotomy m n with h | h | h
    · have hlt := scaled_lt_scaled_of_lt h e
      rw [Nat.compare_eq_lt.2 h, Nat.compare_eq_lt.2 hlt]
    · rw [h, Nat.compare_eq_eq.2 rfl, Nat.compare_eq_eq.2 rfl]
    · have hlt := scaled_lt_scaled_of_lt h e
      rw [Nat.compare_eq_gt.2 h, Nat.compare_eq_gt.2 hlt]
  · have hlt := scaled_lt_scaled hnu hnl (hmf.resolve_right (by omega)) h
    rw [Int.compare_eq_gt.2 h, Nat.compare_eq_gt.2 hlt]
    rfl

theorem compare_signed (negative : Bool) (m n : Nat) :
    compare (signed negative m) (signed negative n) =
      if negative then (compare m n).swap else compare m n := by
  cases negative <;> simp only [signed, if_true, if_false, Bool.false_eq_true] <;>
    rcases Nat.lt_trichotomy m n with h | h | h
  · rw [Nat.compare_eq_lt.2 h, Int.compare_eq_lt.2 (by omega)]
  · rw [Nat.compare_eq_eq.2 h, Int.compare_eq_eq.2 (by omega)]
  · rw [Nat.compare_eq_gt.2 h, Int.compare_eq_gt.2 (by omega)]
  · rw [Nat.compare_eq_lt.2 h, Int.compare_eq_gt.2 (by omega), Ordering.swap_lt]
  · rw [Nat.compare_eq_eq.2 h, Int.compare_eq_eq.2 (by omega), Ordering.swap_eq]
  · rw [Nat.compare_eq_gt.2 h, Int.compare_eq_lt.2 (by omega), Ordering.swap_gt]

/-- A double is scaled and not above the greatest. -/
def IsDouble (b : Binary64) : Prop := b.Scaled ∧ b.saturate = b

theorem IsDouble.le_greatest {a : Bool} {m : Nat} {e : Int} (h : (finite a m e).IsDouble) :
    e ≤ greatestExponent := by
  refine Int.not_lt.1 fun he => ?_
  have hsat := h.2
  rw [saturate, if_pos he] at hsat
  cases hsat

theorem IsDouble.lt_beyond {a : Bool} {m : Nat} {e : Int} (h : (finite a m e).IsDouble) :
    scaled m e < beyond := by
  unfold beyond
  exact scaled_lt_scaled h.1.1 h.1.2.1 (Nat.le_refl _) (Int.lt_add_one_of_le h.le_greatest)

/-- Floats are compared by the values of the doubles, except that a NaN compares with nothing. -/
theorem compare_eq {u v : UnpackedFloat} (hu : (ofUnpacked u).IsDouble)
    (hv : (ofUnpacked v).IsDouble) (hun : ofUnpacked u ≠ nan) (hvn : ofUnpacked v ≠ nan) :
    u.compare v = some (compare (quanta (ofUnpacked u)) (quanta (ofUnpacked v))) := by
  have hb := beyond_pos
  have hlt : ∀ {p q : Int}, p < q → some Ordering.lt = some (compare p q) := fun h =>
    congrArg some (Int.compare_eq_lt.2 h).symm
  have hgt : ∀ {p q : Int}, q < p → some Ordering.gt = some (compare p q) := fun h =>
    congrArg some (Int.compare_eq_gt.2 h).symm
  have heq : ∀ {p q : Int}, p = q → some Ordering.eq = some (compare p q) := fun h =>
    congrArg some (Int.compare_eq_eq.2 h).symm
  match u, v with
  | .notANumber, _ => exact absurd rfl hun
  | _, .notANumber => exact absurd rfl hvn
  | .infinity s, .infinity t =>
    cases s <;> cases t
    · exact heq rfl
    · exact hlt (by simp; omega)
    · exact hgt (by simp; omega)
    · exact heq rfl
  | .infinity s, .zero _ =>
    cases s
    · exact hlt (by simp; omega)
    · exact hgt (by simp; omega)
  | .infinity s, .finite t n f hn =>
    have hn' := hv.lt_beyond
    cases s <;> cases t
    · exact hlt (by simp; omega)
    · exact hlt (by simp; omega)
    · exact hgt (by simp; omega)
    · exact hgt (by simp; omega)
  | .zero _, .infinity t =>
    cases t
    · exact hgt (by simp; omega)
    · exact hlt (by simp; omega)
  | .zero _, .zero _ => exact heq (by simp)
  | .zero _, .finite t n f hn =>
    have hn' := scaled_pos hn f
    cases t
    · exact hgt (by simp; omega)
    · exact hlt (by simp; omega)
  | .finite s m e hm, .infinity t =>
    have hm' := hu.lt_beyond
    cases s <;> cases t
    · exact hgt (by simp; omega)
    · exact hlt (by simp; omega)
    · exact hgt (by simp; omega)
    · exact hlt (by simp; omega)
  | .finite s m e hm, .zero _ =>
    have hm' := scaled_pos hm e
    cases s
    · exact hlt (by simp; omega)
    · exact hgt (by simp; omega)
  | .finite s m e hm, .finite t n f hn =>
    have hm' := scaled_pos hm e
    have hn' := scaled_pos hn f
    cases s <;> cases t
    · have h := compare_signed true (scaled m e) (scaled n f)
      rw [← compare_scaled hu.1 hv.1] at h
      exact congrArg some h.symm
    · exact hlt (by simp; omega)
    · exact hgt (by simp; omega)
    · have h := compare_signed false (scaled m e) (scaled n f)
      rw [← compare_scaled hu.1 hv.1] at h
      exact congrArg some h.symm

theorem ofFloat_isDouble (x : Float) : (ofFloat x).IsDouble :=
  ⟨ofFloat_scaled x, saturate_ofFloat x⟩

theorem compare_nan {u v : UnpackedFloat} (h : ofUnpacked u = nan ∨ ofUnpacked v = nan) :
    u.compare v = none := by
  match u, v with
  | .notANumber, _ => rfl
  | .infinity _, .notANumber | .zero _, .notANumber | .finite .., .notANumber => cases h <;> rfl

/-- The value of a float in units of the least one. -/
def quantaOf (x : Float) : Int := quanta (ofFloat x)

theorem compare_toModel {x y : Float} (hx : ofFloat x ≠ nan) (hy : ofFloat y ≠ nan) :
    x.toModel.unpack.compare y.toModel.unpack = some (compare (quantaOf x) (quantaOf y)) := by
  have hxd := ofFloat_isDouble x
  have hyd := ofFloat_isDouble y
  unfold quantaOf
  rw [ofFloat_eq_ofUnpacked] at hx hy hxd hyd
  rw [ofFloat_eq_ofUnpacked, ofFloat_eq_ofUnpacked]
  exact compare_eq hxd hyd hx hy

theorem compare_toModel_nan {x y : Float} (h : ofFloat x = nan ∨ ofFloat y = nan) :
    x.toModel.unpack.compare y.toModel.unpack = none := by
  rw [ofFloat_eq_ofUnpacked, ofFloat_eq_ofUnpacked] at h
  exact compare_nan h

theorem le_iff {x y : Float} (hx : ofFloat x ≠ nan) (hy : ofFloat y ≠ nan) :
    x ≤ y ↔ quantaOf x ≤ quantaOf y := by
  have hdef : x ≤ y ↔ (x.toModel.unpack.compare y.toModel.unpack).any (·.isLE) = true :=
    decide_eq_true_iff
  rw [hdef, compare_toModel hx hy]
  exact Int.isLE_compare

theorem not_le_of_nan {x y : Float} (h : ofFloat x = nan ∨ ofFloat y = nan) : ¬ x ≤ y := by
  have hdef : x ≤ y ↔ (x.toModel.unpack.compare y.toModel.unpack).any (·.isLE) = true :=
    decide_eq_true_iff
  rw [hdef, compare_toModel_nan h]
  exact Bool.false_ne_true

/-- Floats are equal when they have one value, but a NaN equals nothing. -/
theorem beq_iff {x y : Float} : (x == y) = true ↔
    ofFloat x ≠ nan ∧ ofFloat y ≠ nan ∧ quantaOf x = quantaOf y := by
  have hdef : (x == y) = (x.toModel.unpack.compare y.toModel.unpack == some .eq) := rfl
  rw [hdef]
  by_cases hx : ofFloat x = nan
  · rw [compare_toModel_nan (.inl hx)]
    simp [hx]
  · by_cases hy : ofFloat y = nan
    · rw [compare_toModel_nan (.inr hy)]
      simp [hy]
    · rw [compare_toModel hx hy]
      simp [hx, hy]

theorem ne_nan_of_isFinite {b : Binary64} (h : b.isFinite) : b ≠ nan := by
  rintro rfl
  cases h

theorem isFinite_of_lt_beyond {b : Binary64} (h : b ≠ nan) (hl : -beyond < b.quanta)
    (hu : b.quanta < beyond) : b.isFinite := by
  cases b with
  | nan => exact absurd rfl h
  | infinite a => cases a <;> simp at hl hu
  | finite => rfl

theorem quantaOf_lt_beyond {x : Float} (h : (ofFloat x).isFinite) :
    -beyond < quantaOf x ∧ quantaOf x < beyond := by
  have hdouble := ofFloat_isDouble x
  unfold quantaOf
  generalize ofFloat x = b at h hdouble
  match b, h with
  | .finite a m e, _ =>
    have hlt := hdouble.lt_beyond
    cases a <;> simp <;> omega

theorem isFinite_of_beq {x y : Float} (h : (x == y) = true) (hx : (ofFloat x).isFinite) :
    (ofFloat y).isFinite := by
  obtain ⟨-, hy, heq⟩ := beq_iff.1 h
  obtain ⟨hl, hu⟩ := quantaOf_lt_beyond hx
  rw [heq] at hl hu
  exact isFinite_of_lt_beyond hy hl hu

end RobotHand.Binary64
