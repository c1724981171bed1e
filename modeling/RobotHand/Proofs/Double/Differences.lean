import RobotHand.Proofs.Double.HalfUp
import RobotHand.Proofs.Double.Values

/-! What a rounded difference of floats tells about the exact one: whether it is positive, and
whether it reaches two, where the floats are no finer than those from two on. -/
namespace RobotHand.Binary64

open Float.Model Float.Model.UnpackedFloat

variable {x y z p : Float}

theorem lt_iff : x < y ↔ ofFloat x ≠ nan ∧ ofFloat y ≠ nan ∧ quantaOf x < quantaOf y := by
  have hdef : x < y ↔ (x.toModel.unpack.compare y.toModel.unpack == some .lt) = true :=
    decide_eq_true_iff
  rw [hdef]
  by_cases hx : ofFloat x = nan
  · rw [compare_toModel_nan (.inl hx)]
    simp [hx]
  · by_cases hy : ofFloat y = nan
    · rw [compare_toModel_nan (.inr hy)]
      simp [hy]
    · rw [compare_toModel hx hy]
      simp [hx, hy, Int.compare_eq_lt]

/-- A difference of which a side is not finite. -/
def without : Binary64 → Binary64 → Binary64
  | infinite a, finite .. => infinite a
  | finite .., infinite b => infinite !b
  | infinite a, infinite b => if a = b then nan else infinite a
  | _, _ => nan

theorem ofUnpacked_sub {u v : UnpackedFloat}
    (h : ¬ ((ofUnpacked u).isFinite ∧ (ofUnpacked v).isFinite)) :
    ofUnpacked (UnpackedFloat.sub .binary64 u v) = (ofUnpacked u).without (ofUnpacked v) := by
  match u, v with
  | .zero _, .zero _ | .zero _, .finite .. | .finite .., .zero _ | .finite .., .finite .. =>
    exact absurd ⟨rfl, rfl⟩ h
  | .notANumber, _ => rfl
  | .infinity _, .notANumber | .zero _, .notANumber | .finite .., .notANumber => rfl
  | .infinity _, .zero _ | .infinity _, .finite .. => rfl
  | .zero _, .infinity t | .finite .., .infinity t => cases t <;> rfl
  | .infinity s, .infinity t => cases s <;> cases t <;> rfl

theorem without_not_finite {a b : Binary64} (h : ¬ (a.isFinite ∧ b.isFinite)) :
    (a.without b).isFinite = false := by
  match a, b with
  | finite .., finite .. => exact absurd ⟨rfl, rfl⟩ h
  | nan, _ => rfl
  | infinite _, nan | finite .., nan => rfl
  | infinite _, finite .. | finite .., infinite _ => rfl
  | infinite a, infinite b =>
    rw [without]
    split <;> rfl

theorem ofFloat_sub (h : ¬ ((ofFloat x).isFinite ∧ (ofFloat y).isFinite)) :
    ofFloat (x - y) = (ofFloat x).without (ofFloat y) := by
  have hfar := without_not_finite h
  rw [ofFloat_eq_ofUnpacked x, ofFloat_eq_ofUnpacked y] at h hfar ⊢
  rw [← ofUnpacked_sub h] at hfar ⊢
  exact (ofFloat_pack _ (scaled_of_not_finite hfar)).trans (saturate_not_finite hfar)

theorem zero_lt_sub_iff_of_not_finite (h : ¬ ((ofFloat x).isFinite ∧ (ofFloat y).isFinite)) :
    0 < x - y ↔ y < x := by
  have hzero : ofFloat 0 ≠ nan := by decide
  have hbeyond := beyond_pos
  have hx := @quantaOf_lt_beyond x
  have hy := @quantaOf_lt_beyond y
  rw [lt_iff, lt_iff, quantaOf_zero]
  unfold quantaOf at hx hy ⊢
  rw [ofFloat_sub h]
  generalize ofFloat x = a at h hx ⊢
  generalize ofFloat y = b at h hy ⊢
  match a, b with
  | finite .., finite .. => exact absurd ⟨rfl, rfl⟩ h
  | nan, _ => simp [without]
  | infinite _, nan | finite .., nan => simp [without]
  | infinite a, infinite b => cases a <;> cases b <;> simp [without, hbeyond, hzero]
  | infinite a, finite b s e =>
    have hlt := hy rfl
    simp only [without, quanta, hzero, ne_eq, reduceCtorEq, not_false_eq_true, true_and] at hlt ⊢
    generalize signed b (scaled s e) = n at hlt ⊢
    cases a <;> simp only [signed, if_true, if_false, Bool.false_eq_true] <;> omega
  | finite a s e, infinite b =>
    have hlt := hx rfl
    simp only [without, quanta, hzero, ne_eq, reduceCtorEq, not_false_eq_true, true_and] at hlt ⊢
    generalize signed a (scaled s e) = n at hlt ⊢
    cases b <;> simp only [signed, Bool.not_true, Bool.not_false, if_true, if_false,
      Bool.false_eq_true] <;> omega

/-- A rounded difference is positive exactly if the exact one is. -/
theorem zero_lt_sub_iff : 0 < x - y ↔ y < x := by
  by_cases hfinite : (ofFloat x).isFinite ∧ (ofFloat y).isFinite
  · obtain ⟨hx, hy⟩ := hfinite
    obtain ⟨hnan, hrounds⟩ := sub_rounds hx hy
    have hzero : ofFloat 0 ≠ nan := by decide
    -- Differences are whole quanta, so that a positive one rounds to no less than a quantum.
    have hone := hrounds 1 ⟨1, 0, by decide, by decide, rfl⟩
    have hnone := hrounds 0 ⟨0, 0, by decide, by decide, rfl⟩
    rw [lt_iff, lt_iff, quantaOf_zero, and_iff_right hzero, and_iff_right hnan,
      and_iff_right (ne_nan_of_isFinite hy), and_iff_right (ne_nan_of_isFinite hx)]
    omega
  · exact zero_lt_sub_iff_of_not_finite hfinite

theorem representable_quantaOf (hx : (ofFloat x).isFinite) :
    Representable (quantaOf x).natAbs := by
  have hdouble := ofFloat_isDouble x
  obtain ⟨negative, s, e, h⟩ := exists_of_isFinite hx
  rw [h] at hdouble
  have hmul := @representable_mul e s hdouble.1.1.le hdouble.le_greatest
  rw [← Int.natCast_mul, ← scaled_eq_mul, Int.natAbs_natCast] at hmul
  rw [quantaOf, h, quanta]
  cases negative with
  | true => rwa [signed, if_pos rfl, Int.natAbs_neg, Int.natAbs_natCast]
  | false => exact hmul

/-- A rounded difference lies below a float only if the exact one does. -/
theorem value_sub_lt (hx : (ofFloat x).isFinite) (hy : (ofFloat y).isFinite)
    (hz : (ofFloat z).isFinite) (h : x - y < z) :
    (ofFloat x).value - (ofFloat y).value < (ofFloat z).value := by
  have hunit : (0 : ℚ) < unit := Nat.cast_pos.2 unit_pos
  obtain ⟨-, -, hlt⟩ := lt_iff.1 h
  have hexact : quantaOf x - quantaOf y < quantaOf z := by
    by_contra hle
    have hreach := ((sub_rounds hx hy).2 _ (representable_quantaOf hz)).2 (Int.not_lt.1 hle)
    exact Int.not_lt.2 hreach hlt
  rw [value_ofFloat hx, value_ofFloat hy, value_ofFloat hz, ← sub_div,
    div_lt_div_iff_of_pos_right hunit]
  exact_mod_cast hexact

/-- Two in units of the least double. -/
def two : Nat := scaled hidden (-51)

theorem quantaOf_two : quantaOf 2 = two := by
  have hview : ofFloat 2 = finite false hidden (-51) := by decide
  rw [quantaOf, hview]
  rfl

theorem two_le_iff : 2 ≤ x ↔ ofFloat x ≠ nan ∧ two ≤ quantaOf x := by
  by_cases hx : ofFloat x = nan
  · exact ⟨fun h => absurd h (not_le_of_nan (.inr hx)), fun h => absurd hx h.1⟩
  · rw [le_iff (by decide) hx, quantaOf_two]
    exact (and_iff_right hx).symm

theorem two_le_infinite_iff {b : Bool} (hx : ofFloat x = infinite b) : 2 ≤ x ↔ b = false := by
  have htwo := (@quantaOf_lt_beyond 2 (by decide)).2
  have hpos : (0 : Int) ≤ two := Int.natCast_nonneg _
  have hne : infinite b ≠ nan := Binary64.noConfusion
  rw [two_le_iff, quantaOf, hx, and_iff_right hne]
  rw [quantaOf_two] at htwo
  cases b with
  | true => simp; omega
  | false => simp; omega

theorem two_eq : two = 2 * unit := by
  rw [unit, ← scaled_eq_mul, two]
  exact (scaled_add 2 51 (by decide) rfl).symm

/-- A float from two on is a multiple of the least step there. -/
theorem exists_step_of_two_le (hx : (ofFloat x).isFinite) (h : two ≤ quantaOf x) :
    ∃ k : Int, quantaOf x = k * scaled 1 (-51) := by
  have hdouble := ofFloat_isDouble x
  obtain ⟨negative, s, e, hview⟩ := exists_of_isFinite hx
  rw [hview] at hdouble
  rw [quantaOf, hview, quanta] at h ⊢
  have hcoarse : -51 ≤ e := by
    by_contra hfine
    have hlt : scaled s e < two :=
      scaled_lt_scaled hdouble.1.1 hdouble.1.2.1 (Nat.le_refl _) (Int.not_le.1 hfine)
    cases negative <;> simp only [signed, if_true, if_false, Bool.false_eq_true] at h <;> omega
  have hsteps : scaled s e = s * 2 ^ (e + 51).toNat * scaled 1 (-51) := by
    rw [← scaled_eq_mul]
    exact scaled_add s _ (by decide) (by omega)
  rw [hsteps]
  cases negative with
  | true => exact ⟨-(s * 2 ^ (e + 51).toNat : Nat), by rw [signed, if_pos rfl]; push_cast; ring⟩
  | false => exact ⟨(s * 2 ^ (e + 51).toNat : Nat), by simp⟩

theorem representable_two : Representable (two : Int).natAbs := by
  rw [← quantaOf_two]
  exact representable_quantaOf (by decide)

/-- An exact difference below two lies a step below it, where the float that is taken away lies from
two on. -/
theorem sub_le_of_lt_two (hx : (ofFloat x).isFinite) (hp : (ofFloat p).isFinite)
    (hfar : two ≤ quantaOf p) (hlt : quantaOf x - quantaOf p < two) :
    quantaOf x - quantaOf p ≤ (hidden - 1 : Int) * scaled 1 (-51) := by
  have hstep : (0 : Int) < scaled 1 (-51) := Int.natCast_pos.2 (scaled_pos Nat.one_pos _)
  by_cases hnear : quantaOf x < two
  · have hpos : 0 ≤ (hidden - 1 : Int) * scaled 1 (-51) := Int.mul_nonneg (by decide) hstep.le
    omega
  · obtain ⟨m, hm⟩ := exists_step_of_two_le hx (Int.not_lt.1 hnear)
    obtain ⟨n, hn⟩ := exists_step_of_two_le hp hfar
    have htwo : (two : Int) = hidden * scaled 1 (-51) := by
      rw [two, scaled_eq_mul, Int.natCast_mul]
    rw [hm, hn, ← Int.sub_mul] at hlt ⊢
    rw [htwo] at hlt
    have hfew : m - n < hidden := Int.lt_of_mul_lt_mul_right hlt hstep.le
    exact Int.mul_le_mul_of_nonneg_right (Int.le_sub_one_of_lt hfew) hstep.le

/-- The second float lies at least two above the first, which is finite. -/
def TwoAbove (p x : Float) : Prop :=
  (ofFloat p).isFinite ∧ (ofFloat x = infinite false ∨
    (ofFloat x).isFinite ∧ (ofFloat p).value + 2 ≤ (ofFloat x).value)

theorem value_add_two_le_iff (hp : (ofFloat p).isFinite) (hx : (ofFloat x).isFinite) :
    (ofFloat p).value + 2 ≤ (ofFloat x).value ↔ two ≤ quantaOf x - quantaOf p := by
  have hunit : (0 : ℚ) < unit := Nat.cast_pos.2 unit_pos
  have htwo : (2 : ℚ) = (2 * unit : Nat) / unit := by
    rw [Nat.cast_mul, mul_div_assoc, div_self hunit.ne', mul_one]
    rfl
  rw [value_ofFloat hp, value_ofFloat hx, htwo, ← two_eq, ← add_div,
    div_le_div_iff_of_pos_right hunit, ← Int.cast_natCast, ← Int.cast_add, Int.cast_le]
  omega

theorem twoAbove_iff (hp : (ofFloat p).isFinite) (hx : (ofFloat x).isFinite) :
    TwoAbove p x ↔ (ofFloat p).value + 2 ≤ (ofFloat x).value := by
  have hne : ofFloat x ≠ infinite false := by
    intro heq
    rw [heq] at hx
    cases hx
  rw [TwoAbove, and_iff_right hp, or_iff_right hne, and_iff_right hx]

theorem TwoAbove.trans (h : TwoAbove p x) (h' : TwoAbove x y) : TwoAbove p y := by
  refine ⟨h.1, h'.2.imp_right fun ⟨hy, hle⟩ => ⟨hy, ?_⟩⟩
  have hx := (twoAbove_iff h.1 h'.1).1 h
  linarith

/-- A rounded difference reaches two if the exact one does. -/
theorem TwoAbove.two_le_sub (h : TwoAbove p x) : 2 ≤ x - p := by
  obtain ⟨hp, hx | ⟨hx, hle⟩⟩ := h
  · have hfinite : ¬ ((ofFloat x).isFinite ∧ (ofFloat p).isFinite) := by simp [hx, isFinite]
    obtain ⟨b, s, e, hview⟩ := exists_of_isFinite hp
    have hsub := ofFloat_sub hfinite
    rw [hx, hview] at hsub
    exact (two_le_infinite_iff hsub).2 rfl
  · obtain ⟨hnan, hrounds⟩ := sub_rounds hx hp
    exact two_le_iff.2
      ⟨hnan, (hrounds _ representable_two).2 ((value_add_two_le_iff hp hx).1 hle)⟩

/-- The exact difference of finite floats reaches two if the rounded one does, where the float that
is taken away is zero or lies from two on. -/
theorem two_le_of_two_le_sub (hx : (ofFloat x).isFinite) (hp : (ofFloat p).isFinite)
    (hzero : quantaOf p = 0 ∨ two ≤ quantaOf p) (h : 2 ≤ x - p) :
    two ≤ quantaOf x - quantaOf p := by
  have hrounds := (sub_rounds hx hp).2
  have hreach := (two_le_iff.1 h).2
  rcases hzero with hzero | hfar
  · have hsame := hrounds _ (representable_quantaOf hx)
    omega
  · by_contra hlt
    have hbelow := sub_le_of_lt_two hx hp hfar (Int.not_le.1 hlt)
    have hrounded := (hrounds _ (representable_mul (by decide) (by decide))).1 hbelow
    have hstep : (0 : Int) < scaled 1 (-51) := Int.natCast_pos.2 (scaled_pos Nat.one_pos _)
    rw [two, scaled_eq_mul, Int.natCast_mul] at hreach
    rw [Int.sub_mul] at hrounded
    omega

/-- A float less a positive infinity is no number, or negative. -/
theorem not_two_le_sub_infinite (hp : ofFloat p = infinite false) : ¬ 2 ≤ x - p := by
  intro h
  have hsub : ofFloat (x - p) = (ofFloat x).without (infinite false) :=
    (ofFloat_sub (by simp [hp, isFinite])).trans (congrArg _ hp)
  have hlow : ofFloat (x - p) = nan ∨ ofFloat (x - p) = infinite true := by
    rw [hsub]
    cases ofFloat x with
    | nan => exact .inl rfl
    | infinite a => cases a <;> simp [without]
    | finite => exact .inr rfl
  rcases hlow with hnan | hlow
  · exact (two_le_iff.1 h).1 hnan
  · cases (two_le_infinite_iff hlow).1 h

/-- Where the first float is zero or lies from two on, the second lies two above it exactly if their
rounded difference reaches two. -/
theorem two_le_sub_iff (hp : p = 0 ∨ 2 ≤ p) : 2 ≤ x - p ↔ TwoAbove p x := by
  refine ⟨fun h => ?_, TwoAbove.two_le_sub⟩
  have hzero : ofFloat p ≠ nan ∧ (quantaOf p = 0 ∨ two ≤ quantaOf p) := by
    rcases hp with rfl | hp
    · exact ⟨by decide, .inl quantaOf_zero⟩
    · exact ⟨(two_le_iff.1 hp).1, .inr (two_le_iff.1 hp).2⟩
  have hfinite : (ofFloat p).isFinite := by
    cases hview : ofFloat p with
    | nan => exact absurd hview hzero.1
    | infinite b =>
      rcases hp with rfl | hp
      · cases hview
      · exact absurd h (not_two_le_sub_infinite ((two_le_infinite_iff hview).1 hp ▸ hview))
    | finite => rfl
  refine ⟨hfinite, ?_⟩
  cases hview : ofFloat x with
  | nan =>
    have hsub := @ofFloat_sub x p (by simp [hview, isFinite])
    rw [hview] at hsub
    exact absurd hsub (two_le_iff.1 h).1
  | infinite a =>
    obtain ⟨b, s, e, hp⟩ := exists_of_isFinite hfinite
    have hsub := @ofFloat_sub x p (by simp [hview, isFinite])
    rw [hview, hp] at hsub
    exact .inl (congrArg _ ((two_le_infinite_iff hsub).1 h))
  | finite b s e =>
    have hx : (ofFloat x).isFinite := by rw [hview]; rfl
    rw [← hview]
    exact .inr ⟨hx, (value_add_two_le_iff hfinite hx).2 (two_le_of_two_le_sub hx hfinite hzero.2 h)⟩

/-- What lies two above zero or above a float from two on lies from two on itself. -/
theorem TwoAbove.two_le (h : TwoAbove p x) (hp : p = 0 ∨ 2 ≤ p) : 2 ≤ x := by
  obtain ⟨hfinite, hx | ⟨hx, hle⟩⟩ := h
  · exact (two_le_infinite_iff hx).2 rfl
  · refine two_le_iff.2 ⟨ne_nan_of_isFinite hx, ?_⟩
    have hfar := (value_add_two_le_iff hfinite hx).1 hle
    have hpos : (0 : Int) ≤ two := Int.natCast_nonneg _
    have hzero : 0 ≤ quantaOf p := by
      rcases hp with rfl | hp
      · exact quantaOf_zero.ge
      · exact hpos.trans (two_le_iff.1 hp).2
    omega

end RobotHand.Binary64
