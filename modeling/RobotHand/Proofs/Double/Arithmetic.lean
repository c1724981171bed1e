import RobotHand.Proofs.Double.Order

/-! Sums and differences of floats are their exact values, rounded. -/
namespace RobotHand.Binary64

open Float.Model Float.Model.UnpackedFloat

/-- `k` is not beyond any representable integer that `n` is not beyond. -/
def RoundsTo (n k : Int) : Prop :=
  ∀ q : Int, Representable q.natAbs → (n ≤ q → k ≤ q) ∧ (q ≤ n → q ≤ k)

theorem RoundsTo.refl (n : Int) : RoundsTo n n := fun _ _ => ⟨id, id⟩

theorem Rounds.signed {n k : Nat} (h : Rounds n k) (negative : Bool) :
    RoundsTo (signed negative n) (signed negative k) := by
  intro q hq
  have habs := h q.natAbs hq
  cases negative <;> simp <;> omega

theorem Representable.le_beyond {q : Nat} (h : Representable q) : q ≤ beyond := by
  have hexp : (greatestExponent - leastExponent).toNat + 1 =
      (greatestExponent + 1 - leastExponent).toNat := by decide
  obtain ⟨n, g, hn, hg, rfl⟩ := h
  calc n * 2 ^ g ≤ 2 * hidden * 2 ^ (greatestExponent - leastExponent).toNat :=
        Nat.mul_le_mul hn (Nat.pow_le_pow_right (by decide) hg)
    _ = beyond := by rw [carry_mul, beyond, scaled, hexp]

/-- A value that rounds beyond the greatest double also rounds to infinity. -/
theorem RoundsTo.beyond {n : Int} {k : Nat} {negative : Bool} (h : RoundsTo n (signed negative k))
    (hk : Binary64.beyond ≤ k) : RoundsTo n (signed negative Binary64.beyond) := by
  intro q hq
  have hside := h q hq
  have hbound := hq.le_beyond
  cases negative <;> simp at hside ⊢ <;> omega

/-- A finite datum of the format whose value is an integer of quanta, rounded. -/
structure Gives (u : UnpackedFloat) (n : Int) : Prop where
  finite : (ofUnpacked u).isFinite
  scaled : (ofUnpacked u).Scaled
  rounds : RoundsTo n (ofUnpacked u).quanta

theorem gives_round (s : Sign) {m : Nat} {e : Int} (hm : 0 < m) (he : leastExponent ≤ e) :
    Gives (UnpackedFloat.round .binary64 s m e) (signed (minus s) (scaled m e)) := by
  obtain ⟨k, t, heq, hscaled, hrounds⟩ := round_spec s hm he
  refine ⟨by rw [heq]; rfl, by rw [heq]; exact hscaled, ?_⟩
  rw [heq]
  exact hrounds.signed (minus s)

theorem gives_normalize (m : Int) {e : Int} (he : leastExponent ≤ e) :
    Gives (UnpackedFloat.normalize .binary64 m e .positive)
      (m * 2 ^ (e - leastExponent).toNat) := by
  unfold UnpackedFloat.normalize
  rcases Int.lt_trichotomy m 0 with h | rfl | h
  · have hspec := gives_round .negative (m := (-m).toNat) (by omega) he
    rw [Int.compare_eq_lt.2 h]
    have hval : signed (minus .negative) (scaled (-m).toNat e) =
        m * 2 ^ (e - leastExponent).toNat := by
      have hm : ((-m).toNat : Int) = -m := by omega
      simp [scaled, hm]
    exact hval ▸ hspec
  · exact ⟨rfl, ⟨by decide, by decide, .inr rfl⟩, by
      rw [Int.zero_mul]; simp; exact .refl 0⟩
  · have hspec := gives_round .positive (m := m.toNat) (by omega) he
    rw [Int.compare_eq_gt.2 h]
    have hval : signed (minus .positive) (scaled m.toNat e) =
        m * 2 ^ (e - leastExponent).toNat := by
      have hm : (m.toNat : Int) = m := by omega
      simp [scaled, hm]
    exact hval ▸ hspec

theorem apply_decreaseExponent (s : Sign) (m : Nat) {e f : Int} (hf : leastExponent ≤ f)
    (h : f ≤ e) :
    s.apply (decreaseExponent m e f).1 * 2 ^ (f - leastExponent).toNat =
      signed (minus s) (scaled m e) := by
  have hsum : (e - leastExponent).toNat = (e - f).toNat + (f - leastExponent).toNat := by omega
  simp only [decreaseExponent, Nat.shiftLeft_eq, scaled, hsum, Nat.pow_add, ← Nat.mul_assoc]
  cases s <;> simp [Sign.apply]

theorem quanta_zero (s : Sign) : (ofUnpacked (.zero s)).quanta = 0 := by
  cases s <;> simp

theorem gives_add {u v : UnpackedFloat} (hu : (ofUnpacked u).Scaled) (hv : (ofUnpacked v).Scaled)
    (hfu : (ofUnpacked u).isFinite) (hfv : (ofUnpacked v).isFinite) :
    Gives (UnpackedFloat.add .binary64 u v) ((ofUnpacked u).quanta + (ofUnpacked v).quanta) := by
  match u, v with
  | .infinity _, _ => cases hfu
  | .notANumber, _ => cases hfu
  | _, .infinity _ => cases hfv
  | _, .notANumber => cases hfv
  | .zero s, .zero t =>
    obtain ⟨r, hr⟩ : ∃ r, UnpackedFloat.add .binary64 (.zero s) (.zero t) = .zero r := by
      cases s <;> cases t <;> exact ⟨_, rfl⟩
    refine ⟨by rw [hr]; rfl, by rw [hr]; exact hu, ?_⟩
    rw [hr, quanta_zero, quanta_zero, quanta_zero]
    exact .refl 0
  | .zero s, .finite t n f hn =>
    refine ⟨rfl, hv, ?_⟩
    rw [quanta_zero, Int.zero_add]
    exact .refl _
  | .finite s m e hm, .zero t =>
    refine ⟨rfl, hu, ?_⟩
    rw [quanta_zero, Int.add_zero]
    exact .refl _
  | .finite s m e hm, .finite t n f hn =>
    have hl : leastExponent ≤ min e f := Int.le_min.2 ⟨hu.2.1, hv.2.1⟩
    have hspec := gives_normalize (s.apply (decreaseExponent m e (min e f)).1 +
      t.apply (decreaseExponent n f (min e f)).1) hl
    rw [Int.add_mul, apply_decreaseExponent s m hl (Int.min_le_left e f),
      apply_decreaseExponent t n hl (Int.min_le_right e f)] at hspec
    exact hspec

theorem sub_eq_add_neg (u v : UnpackedFloat) :
    UnpackedFloat.sub .binary64 u v = UnpackedFloat.add .binary64 u v.neg := by
  have happly : ∀ (t : Sign) (n : Nat), (-t).apply n = -t.apply n := by
    intro t n
    cases t
    · exact (Int.neg_neg _).symm
    · rfl
  rcases u with s | _ | s | ⟨s, m, e, hm⟩ <;> rcases v with t | _ | t | ⟨t, n, f, hn⟩ <;>
    try rfl
  simp only [UnpackedFloat.sub, UnpackedFloat.add, UnpackedFloat.neg, happly, Int.sub_eq_add_neg]

theorem quanta_neg (v : UnpackedFloat) : (ofUnpacked v.neg).quanta = -(ofUnpacked v).quanta := by
  rcases v with t | _ | t | ⟨t, n, f, hn⟩
  · cases t <;> simp [UnpackedFloat.neg]
  · rfl
  · cases t <;> simp [UnpackedFloat.neg]
  · cases t <;> simp [UnpackedFloat.neg]

theorem scaled_neg {v : UnpackedFloat} (h : (ofUnpacked v).Scaled) : (ofUnpacked v.neg).Scaled := by
  cases v <;> exact h

theorem isFinite_neg (v : UnpackedFloat) :
    (ofUnpacked v.neg).isFinite = (ofUnpacked v).isFinite := by
  cases v <;> rfl

theorem gives_sub {u v : UnpackedFloat} (hu : (ofUnpacked u).Scaled) (hv : (ofUnpacked v).Scaled)
    (hfu : (ofUnpacked u).isFinite) (hfv : (ofUnpacked v).isFinite) :
    Gives (UnpackedFloat.sub .binary64 u v) ((ofUnpacked u).quanta - (ofUnpacked v).quanta) := by
  rw [sub_eq_add_neg, Int.sub_eq_add_neg, ← quanta_neg]
  exact gives_add hu (scaled_neg hv) hfu (isFinite_neg v ▸ hfv)

/-- Packing a rounded value leaves it on the same side of every representable value. -/
theorem Gives.ofFloat_pack {u : UnpackedFloat} {n : Int} (h : Gives u n) :
    ofFloat (.ofModel (.pack u)) ≠ nan ∧ RoundsTo n (quantaOf (.ofModel (.pack u))) := by
  obtain ⟨hf, hs, hr⟩ := h
  unfold quantaOf
  rw [Binary64.ofFloat_pack u hs]
  generalize ofUnpacked u = b at hf hs hr
  cases b with
  | nan => cases hf
  | infinite a => cases hf
  | finite a m e =>
    by_cases hg : greatestExponent < e
    · rw [saturate, if_pos hg]
      have hmin : leastExponent ≤ greatestExponent := by decide
      have hm : hidden ≤ m := hs.2.2.resolve_right (by omega)
      refine ⟨Binary64.noConfusion, hr.beyond ?_⟩
      rw [Binary64.beyond]
      exact scaled_le_scaled hm (by omega)
    · rw [saturate, if_neg hg]
      exact ⟨Binary64.noConfusion, hr⟩

/-- The sum of finite floats is their exact sum, rounded. -/
theorem add_rounds {x y : Float} (hx : (ofFloat x).isFinite) (hy : (ofFloat y).isFinite) :
    ofFloat (x + y) ≠ nan ∧ RoundsTo (quantaOf x + quantaOf y) (quantaOf (x + y)) := by
  have hxs := ofFloat_scaled x
  have hys := ofFloat_scaled y
  rw [ofFloat_eq_ofUnpacked] at hx hy hxs hys
  have hgives := (gives_add hxs hys hx hy).ofFloat_pack
  rw [← ofFloat_eq_ofUnpacked, ← ofFloat_eq_ofUnpacked] at hgives
  exact hgives

/-- The difference of finite floats is their exact difference, rounded. -/
theorem sub_rounds {x y : Float} (hx : (ofFloat x).isFinite) (hy : (ofFloat y).isFinite) :
    ofFloat (x - y) ≠ nan ∧ RoundsTo (quantaOf x - quantaOf y) (quantaOf (x - y)) := by
  have hxs := ofFloat_scaled x
  have hys := ofFloat_scaled y
  rw [ofFloat_eq_ofUnpacked] at hx hy hxs hys
  have hgives := (gives_sub hxs hys hx hy).ofFloat_pack
  rw [← ofFloat_eq_ofUnpacked, ← ofFloat_eq_ofUnpacked] at hgives
  exact hgives

theorem isFinite_of_sub {u v : UnpackedFloat}
    (h : (ofUnpacked (UnpackedFloat.sub .binary64 u v)).isFinite) :
    (ofUnpacked u).isFinite ∧ (ofUnpacked v).isFinite := by
  match u, v with
  | .zero _, .zero _ | .zero _, .finite .. | .finite .., .zero _ | .finite .., .finite .. =>
    exact ⟨rfl, rfl⟩
  | .notANumber, _ => cases h
  | .infinity _, .notANumber | .zero _, .notANumber | .finite .., .notANumber => cases h
  | .infinity _, .zero _ | .infinity _, .finite .. => cases h
  | .zero _, .infinity _ | .finite .., .infinity _ => cases h
  | .infinity s, .infinity t => cases s <;> cases t <;> cases h

theorem saturate_not_finite {b : Binary64} (h : b.isFinite = false) : b.saturate = b := by
  cases b with
  | finite => cases h
  | _ => rfl

theorem scaled_of_not_finite {b : Binary64} (h : b.isFinite = false) : b.Scaled := by
  cases b with
  | finite => cases h
  | _ => trivial

/-- A finite difference has finite sides. -/
theorem isFinite_of_sub_isFinite {x y : Float} (h : (ofFloat (x - y)).isFinite) :
    (ofFloat x).isFinite ∧ (ofFloat y).isFinite := by
  rw [ofFloat_eq_ofUnpacked x, ofFloat_eq_ofUnpacked y]
  apply isFinite_of_sub
  refine Decidable.byContradiction fun hn => ?_
  have hb := Bool.not_eq_true _ ▸ hn
  change (ofFloat (.ofModel (.pack (UnpackedFloat.sub .binary64 x.toModel.unpack
    y.toModel.unpack)))).isFinite = true at h
  rw [ofFloat_pack _ (scaled_of_not_finite hb), saturate_not_finite hb] at h
  exact hn h

theorem quantaOf_zero : quantaOf 0 = 0 := by
  have hview : ofFloat 0 = finite false 0 leastExponent := by decide
  rw [quantaOf, hview]
  simp

theorem isFinite_of_quanta_eq_zero {b : Binary64} (h : b ≠ nan) (hq : b.quanta = 0) :
    b.isFinite := by
  cases b with
  | nan => exact absurd rfl h
  | infinite a =>
    have hpos := beyond_pos
    cases a <;> simp at hq <;> omega
  | finite => rfl

/-- A difference is zero exactly when both sides are finite and equal. -/
theorem sub_beq_zero (x y : Float) : (x - y == 0) = true ↔
    (ofFloat x).isFinite ∧ (ofFloat y).isFinite ∧ quantaOf x = quantaOf y := by
  have hzero : ofFloat 0 ≠ nan := by decide
  rw [beq_iff, quantaOf_zero]
  constructor
  · rintro ⟨hnan, -, hq⟩
    obtain ⟨hx, hy⟩ := isFinite_of_sub_isFinite (isFinite_of_quanta_eq_zero hnan hq)
    have hr := (sub_rounds hx hy).2
    -- Differences are whole quanta, so that one that is not zero rounds to no less than a quantum.
    have hpos := hr 1 ⟨1, 0, by decide, by decide, rfl⟩
    have hneg := hr (-1) ⟨1, 0, by decide, by decide, rfl⟩
    exact ⟨hx, hy, by omega⟩
  · rintro ⟨hx, hy, hq⟩
    obtain ⟨hnan, hr⟩ := sub_rounds hx hy
    have h0 := hr 0 ⟨0, 0, by decide, by decide, rfl⟩
    exact ⟨hnan, hzero, by omega⟩

end RobotHand.Binary64
