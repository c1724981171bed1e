import RobotHand.Proofs.Double.Arithmetic

/-! Floats that stand for one double are one float; the sign of a float and its magnitude. -/
namespace RobotHand.Binary64

open Float.Model Float.Model.UnpackedFloat

variable {x y : Float} {negative : Bool} {s : Nat} {e : Int}

/-- The bits of a double that is a number hold its parts. -/
theorem magnitude_ofParts {exponent fraction : Nat} (hf : fraction < hidden)
    (h : ofParts negative exponent fraction ≠ nan) :
    (ofParts negative exponent fraction).magnitude = exponent * hidden + fraction ∧
      (ofParts negative exponent fraction).isNegative = negative := by
  have hhid : hidden = 0x10000000000000 := rfl
  have hmin : leastExponent = -1074 := rfl
  unfold ofParts at h ⊢
  split at h
  · next hspecial =>
    split at h
    · next hzero =>
      rw [if_pos hspecial, if_pos hzero, magnitude, hspecial, hzero]
      exact ⟨rfl, rfl⟩
    · exact absurd rfl h
  · next hnormal =>
    rw [if_neg hnormal]
    split
    · next hzero =>
      rw [magnitude, if_pos hf, hzero, Nat.zero_mul, Nat.zero_add]
      exact ⟨rfl, rfl⟩
    · next hnonzero =>
      rw [magnitude, if_neg (by omega)]
      refine ⟨?_, rfl⟩
      rw [hhid]
      omega

theorem bits_ofFloat (h : ofFloat x ≠ nan) :
    x.toBits.toNat = (ofFloat x).magnitude +
      if (ofFloat x).isNegative then 0x8000000000000000 else 0 := by
  rw [ofFloat_eq_ofParts] at h ⊢
  have hlt : x.toBits.toNat < 2 ^ 64 := x.toBits.toNat_lt
  obtain ⟨hmagnitude, hsign⟩ := magnitude_ofParts (Nat.mod_lt _ (by decide)) h
  rw [hmagnitude, hsign]
  simp only [hidden, decide_eq_true_eq]
  split <;> omega

/-- A double that is a number stands for one float. -/
theorem eq_of_ofFloat_eq (hne : ofFloat x ≠ nan) (h : ofFloat x = ofFloat y) : x = y := by
  have hbits : x.toBits = y.toBits := by
    apply UInt64.toNat_inj.1
    rw [bits_ofFloat hne, bits_ofFloat (h ▸ hne), h]
  obtain ⟨⟨bits, hvalid⟩⟩ := x
  obtain ⟨⟨bits', hvalid'⟩⟩ := y
  have hsame : bits = bits' := hbits
  subst hsame
  rfl

theorem ofFloat_pack_of_isDouble {u : UnpackedFloat} (h : (ofUnpacked u).IsDouble) :
    ofFloat (.ofModel (.pack u)) = ofUnpacked u :=
  (ofFloat_pack u h.1).trans h.2

theorem exists_of_isFinite {b : Binary64} (h : b.isFinite) :
    ∃ negative s e, b = finite negative s e := by
  cases b with
  | finite negative s e => exact ⟨negative, s, e, rfl⟩
  | nan => exact absurd h Bool.false_ne_true
  | infinite negative => exact absurd h Bool.false_ne_true

theorem toFloat_of_ofFloat (h : ofFloat x = finite negative s e) :
    (finite negative s e).toFloat = x := by
  have hdouble := ofFloat_isDouble x
  rw [h] at hdouble
  have hback := ofFloat_toFloat hdouble.1 hdouble.le_greatest
  refine eq_of_ofFloat_eq ?_ (hback.trans h.symm)
  rw [hback]
  exact Binary64.noConfusion

/-- The sign does not count for what is a double. -/
theorem IsDouble.withSign (h : (finite negative s e).IsDouble) (negative' : Bool) :
    (finite negative' s e).IsDouble := by
  refine ⟨h.1, ?_⟩
  rw [saturate, if_neg (Int.not_lt.2 h.le_greatest)]

theorem ofFloat_neg (h : ofFloat x = finite negative s e) :
    ofFloat (-x) = finite (!negative) s e := by
  have hdouble := ofFloat_isDouble x
  rw [h] at hdouble
  rw [ofFloat_eq_ofUnpacked] at h
  have hneg : ofUnpacked x.toModel.unpack.neg = finite (!negative) s e := by
    generalize x.toModel.unpack = u at h
    cases u with
    | notANumber => cases h
    | infinity t => cases h
    | zero t =>
      cases h
      cases t <;> rfl
    | finite t m f hm =>
      cases h
      cases t <;> rfl
  have hpack := @ofFloat_pack_of_isDouble x.toModel.unpack.neg (hneg ▸ hdouble.withSign _)
  rw [hneg] at hpack
  exact hpack

theorem ofFloat_abs (h : ofFloat x = finite negative s e) : ofFloat x.abs = finite false s e := by
  have hdouble := ofFloat_isDouble x
  rw [h] at hdouble
  rw [ofFloat_eq_ofUnpacked] at h
  have habs : ofUnpacked x.toModel.unpack.abs = finite false s e := by
    generalize x.toModel.unpack = u at h
    cases u with
    | notANumber => cases h
    | infinity t => cases h
    | zero t =>
      cases h
      rfl
    | finite t m f hm =>
      cases h
      rfl
  have hpack := @ofFloat_pack_of_isDouble x.toModel.unpack.abs (habs ▸ hdouble.withSign _)
  rw [habs] at hpack
  exact hpack

/-- A finite float is its magnitude with its sign. -/
theorem abs_with_sign (h : ofFloat x = finite negative s e) :
    (if negative then -x.abs else x.abs) = x := by
  have habs := ofFloat_abs h
  cases negative with
  | true =>
    have hneg : ofFloat (-x.abs) = finite true s e := ofFloat_neg habs
    refine eq_of_ofFloat_eq (hneg ▸ nofun) ?_
    rw [h]
    exact hneg
  | false => exact eq_of_ofFloat_eq (habs ▸ nofun) (habs.trans h.symm)

/-- Scaled doubles of one value are one double, apart from zeros. -/
theorem Scaled.eq_of_quanta_eq {a b : Bool} {m n : Nat} {e f : Int} (h : (finite a m e).Scaled)
    (h' : (finite b n f).Scaled) (hquanta : (finite a m e).quanta = (finite b n f).quanta)
    (hne : (finite a m e).quanta ≠ 0) : finite a m e = finite b n f := by
  have hsame : a = b ∧ scaled m e = scaled n f := by
    simp only [quanta, signed] at hquanta hne
    cases a <;> cases b <;> simp at hquanta hne ⊢ <;> omega
  have hcompare := compare_scaled h h'
  rw [hsame.2, Nat.compare_eq_eq.2 rfl, Ordering.then_eq_eq, Int.compare_eq_eq,
    Nat.compare_eq_eq] at hcompare
  rw [hsame.1, hcompare.1, hcompare.2]

/-- Finite floats that are equal are one float, apart from zeros. -/
theorem eq_of_beq (h : (x == y) = true) (hfinite : (ofFloat x).isFinite) (hne : quantaOf x ≠ 0) :
    x = y := by
  obtain ⟨hx, -, hquanta⟩ := beq_iff.1 h
  have hfinite' := isFinite_of_beq h hfinite
  refine eq_of_ofFloat_eq hx ?_
  unfold quantaOf at hquanta hne
  have hxs := ofFloat_scaled x
  have hys := ofFloat_scaled y
  cases hxd : ofFloat x with
  | nan | infinite =>
    rw [hxd] at hfinite
    cases hfinite
  | finite a m e =>
    cases hyd : ofFloat y with
    | nan | infinite =>
      rw [hyd] at hfinite'
      cases hfinite'
    | finite b n f =>
      rw [hxd] at hxs hquanta hne
      rw [hyd] at hys hquanta
      exact hxs.eq_of_quanta_eq hys hquanta hne

end RobotHand.Binary64
