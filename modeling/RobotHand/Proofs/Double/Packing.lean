import Mathlib
import RobotHand.Number.Binary64

/-! The bits of a double, as the arithmetic of floats unpacks them and as `Binary64` does. -/
namespace RobotHand.Binary64

open Float.Model Float.Model.UnpackedFloat

/-- The double that a sign, an exponent field and a fraction field stand for. -/
def ofParts (negative : Bool) (exponent fraction : Nat) : Binary64 :=
  if exponent = 0x7ff then
    if fraction = 0 then .infinite negative else .nan
  else if exponent = 0 then .finite negative fraction leastExponent
  else .finite negative (fraction + hidden) (exponent - 1 + leastExponent)

theorem ofFloat_eq_ofParts (x : Float) :
    ofFloat x = ofParts (decide (0x8000000000000000 ≤ x.toBits.toNat))
      (x.toBits.toNat / hidden % 0x800) (x.toBits.toNat % hidden) := rfl

@[simp] def minus : Sign → Bool
  | .negative => true
  | .positive => false

/-- What the arithmetic of floats works on, as a double. -/
@[simp] def ofUnpacked : UnpackedFloat → Binary64
  | .notANumber => .nan
  | .infinity s => .infinite (minus s)
  | .zero s => .finite (minus s) 0 leastExponent
  | .finite s m e _ => .finite (minus s) m e

theorem toNat_unpackMantissa (b : BitVec 64) :
    (@unpackMantissa .binary64 b).toNat = b.toNat % hidden := by
  simp [unpackMantissa, hidden]

theorem toNat_unpackExponent (b : BitVec 64) :
    (@unpackExponent .binary64 b).toNat = b.toNat / hidden % 0x800 := by
  simp [unpackExponent, hidden, Nat.shiftRight_eq_div_pow]

theorem minus_unpackSign (b : BitVec 64) :
    minus (Sign.ofBitVec (@unpackSign .binary64 b)) =
      decide (0x8000000000000000 ≤ b.toNat) := by
  have hb : b.toNat < 2 ^ 64 := b.isLt
  have hn : (@unpackSign .binary64 b).toNat = b.toNat / 2 ^ 63 := by
    simp [unpackSign, Nat.shiftRight_eq_div_pow]
    omega
  by_cases h : 0x8000000000000000 ≤ b.toNat
  · have hs : @unpackSign .binary64 b ≠ 0#1 := by
      intro hz
      rw [hz] at hn
      simp at hn
      omega
    simp [Sign.ofBitVec, hs, minus, h]
  · have hs : @unpackSign .binary64 b = 0#1 := by
      apply BitVec.eq_of_toNat_eq
      rw [hn]
      simp
      omega
    simp [Sign.ofBitVec, hs, minus, h]

theorem ofUnpacked_unpack (b : BitVec 64) :
    ofUnpacked (UnpackedFloat.unpack Format.binary64 b) =
      ofParts (decide (0x8000000000000000 ≤ b.toNat)) (b.toNat / hidden % 0x800)
        (b.toNat % hidden) := by
  rw [← minus_unpackSign, ← toNat_unpackExponent, ← toNat_unpackMantissa]
  have hall : @unpackExponent .binary64 b = -1#11 ↔
      (@unpackExponent .binary64 b).toNat = 0x7ff := by
    rw [← BitVec.toNat_inj]
    rfl
  have hnone : @unpackExponent .binary64 b = 0#11 ↔ (@unpackExponent .binary64 b).toNat = 0 := by
    rw [← BitVec.toNat_inj]
    rfl
  have hzero : @unpackMantissa .binary64 b = 0#52 ↔ (@unpackMantissa .binary64 b).toNat = 0 := by
    rw [← BitVec.toNat_inj]
    rfl
  unfold UnpackedFloat.unpack ofParts
  dsimp only
  by_cases h1 : (@unpackExponent .binary64 b).toNat = 0x7ff
  · rw [if_pos (hall.2 h1), if_pos h1]
    by_cases h2 : (@unpackMantissa .binary64 b).toNat = 0
    · rw [if_pos (hzero.2 h2), if_pos h2]
      rfl
    · rw [if_neg (mt hzero.1 h2), if_neg h2]
      rfl
  · rw [if_neg (mt hall.1 h1), if_neg h1]
    by_cases h2 : (@unpackExponent .binary64 b).toNat = 0
    · rw [if_pos (hnone.2 h2), if_pos h2]
      by_cases h3 : (@unpackMantissa .binary64 b).toNat = 0
      · rw [dif_pos (hzero.2 h3), h3]
        rfl
      · rw [dif_neg (mt hzero.1 h3), ofUnpacked, h2]
        rfl
    · rw [if_neg (mt hnone.1 h2), if_neg h2, ofUnpacked, BitVec.toNat_append,
        ← Nat.shiftLeft_add_eq_or_of_lt (BitVec.isLt _), Nat.add_comm]
      congr 1
      simp only [Format.exponentBias, leastExponent]
      omega

theorem toNat_packComponents (s : Sign) (e : BitVec 11) (m : BitVec 52) :
    (packComponents Format.binary64 s e m).toNat =
      (if minus s then 2 ^ 63 else 0) + e.toNat * hidden + m.toNat := by
  have he : e.toNat < 2 ^ 11 := e.isLt
  have hm : m.toNat < 2 ^ 52 := m.isLt
  simp only [packComponents, BitVec.toNat_append]
  rw [← Nat.shiftLeft_add_eq_or_of_lt hm, ← Nat.shiftLeft_add_eq_or_of_lt he]
  cases s <;> simp [Nat.shiftLeft_eq, hidden, minus, Sign.toBitVec]
  omega

/-- A finite double is scaled if its significand fills the format, unless its exponent is the
least. -/
def Scaled : Binary64 → Prop
  | finite _ s e => s < 2 * hidden ∧ leastExponent ≤ e ∧ (hidden ≤ s ∨ e = leastExponent)
  | _ => True

/-- A finite value beyond the greatest double becomes infinite. -/
def saturate : Binary64 → Binary64
  | finite negative s e =>
    if greatestExponent < e then infinite negative else finite negative s e
  | b => b

/-- The arithmetic of floats works on what `ofFloat` tells. -/
theorem ofFloat_eq_ofUnpacked (x : Float) : ofFloat x = ofUnpacked x.toModel.unpack := by
  rw [ofFloat_eq_ofParts]
  exact (ofUnpacked_unpack x.toModel.toBits.toBitVec).symm

theorem ofParts_bits (negative : Bool) {exponent fraction : Nat} (he : exponent < 0x800)
    (hf : fraction < hidden) {n : Nat}
    (hn : n = (if negative then 0x8000000000000000 else 0) + exponent * hidden + fraction) :
    ofParts (decide (0x8000000000000000 ≤ n)) (n / hidden % 0x800) (n % hidden) =
      ofParts negative exponent fraction := by
  simp only [hidden] at *
  congr 1
  · cases negative <;> simp at hn ⊢ <;> omega
  · cases negative <;> simp at hn <;> omega
  · cases negative <;> simp at hn <;> omega

theorem ofUnpacked_packComponents (s : Sign) (e : BitVec 11) (m : BitVec 52) :
    ofUnpacked (UnpackedFloat.unpack .binary64 (packComponents .binary64 s e m)) =
      ofParts (minus s) e.toNat m.toNat := by
  rw [ofUnpacked_unpack]
  exact ofParts_bits (minus s) e.isLt m.isLt (toNat_packComponents s e m)

/-- Packing keeps what is scaled, up to the greatest double. -/
theorem ofFloat_pack (u : UnpackedFloat) (h : (ofUnpacked u).Scaled) :
    ofFloat (.ofModel (.pack u)) = (ofUnpacked u).saturate := by
  rw [ofFloat_eq_ofUnpacked]
  change ofUnpacked (UnpackedFloat.unpack .binary64 (UnpackedFloat.pack .binary64 u)) = _
  cases u with
  | notANumber => rfl
  | infinity s => cases s <;> rfl
  | zero s => cases s <;> rfl
  | finite s m e hm =>
    obtain ⟨hu, hl, hn⟩ := h
    simp only [hidden, leastExponent] at hu hl hn
    have hlog : m.log2 + 1 = 53 ↔ 0x10000000000000 ≤ m := by
      have h52 := @Nat.le_log2 m 52 (Nat.ne_of_gt hm)
      have h53 := @Nat.log2_lt m 53 (Nat.ne_of_gt hm)
      omega
    unfold UnpackedFloat.pack
    change ofUnpacked (UnpackedFloat.unpack .binary64
      (if 2 ^ 11 ≤ (e + 1023 + 52).toNat + 1 then packedInfinity .binary64 s
       else if m.log2 + 1 = 53 then
         packComponents .binary64 s (BitVec.ofNat 11 (e + 1023 + 52).toNat) (BitVec.ofNat 52 m)
       else packComponents .binary64 s 0#11 (BitVec.ofNat 52 m))) = _
    change _ = saturate (finite (minus s) m e)
    have hmax : greatestExponent = 971 := rfl
    by_cases hg : greatestExponent < e
    · rw [if_pos (by omega), saturate, if_pos hg]
      cases s <;> rfl
    · rw [if_neg (by omega), saturate, if_neg hg]
      by_cases hf : 0x10000000000000 ≤ m
      · have he : (BitVec.ofNat 11 (e + 1023 + 52).toNat).toNat = (e + 1075).toNat := by
          rw [BitVec.toNat_ofNat]
          omega
        have hp : (BitVec.ofNat 52 m).toNat + 0x10000000000000 = m := by
          rw [BitVec.toNat_ofNat]
          omega
        rw [if_pos (hlog.2 hf), ofUnpacked_packComponents, ofParts, he, if_neg (by omega),
          if_neg (by omega), hidden, hp, leastExponent]
        congr 1
        omega
      · rw [if_neg (mt hlog.1 hf), ofUnpacked_packComponents, ofParts, if_neg (by decide),
          if_pos BitVec.toNat_zero, BitVec.toNat_ofNat, Nat.mod_eq_of_lt (by omega), leastExponent]
        congr 1
        omega

theorem ofParts_scaled (negative : Bool) (exponent : Nat) {fraction : Nat}
    (h : fraction < hidden) : (ofParts negative exponent fraction).Scaled := by
  unfold ofParts
  split
  · split <;> trivial
  · split
    · exact ⟨by omega, Int.le_refl _, .inr rfl⟩
    · exact ⟨by omega, by omega, .inl (by omega)⟩

theorem saturate_ofParts (negative : Bool) {exponent : Nat} (fraction : Nat)
    (h : exponent < 0x800) :
    (ofParts negative exponent fraction).saturate = ofParts negative exponent fraction := by
  have hmax : greatestExponent = 971 := rfl
  have hmin : leastExponent = -1074 := rfl
  unfold ofParts
  split
  · split <;> rfl
  · split
    · rw [saturate, if_neg (by omega)]
    · rw [saturate, if_neg (by omega)]

/-- The significand of a double fills the format, unless the exponent is the least. -/
theorem ofFloat_scaled (x : Float) : (ofFloat x).Scaled := by
  rw [ofFloat_eq_ofParts]
  exact ofParts_scaled _ _ (Nat.mod_lt _ (by decide))

/-- No double lies beyond the greatest one. -/
@[simp] theorem saturate_ofFloat (x : Float) : (ofFloat x).saturate = ofFloat x := by
  rw [ofFloat_eq_ofParts]
  exact saturate_ofParts _ _ (Nat.mod_lt _ (by decide))

theorem ofFloat_ofBits (n : Nat) (h : n < 2 ^ 64) :
    ofFloat (.ofBits (.ofNat n)) =
      ofParts (decide (0x8000000000000000 ≤ n)) (n / hidden % 0x800) (n % hidden) := by
  have hn : (UInt64.ofNat n).toBitVec.toNat = n := Nat.mod_eq_of_lt h
  have hu := ofUnpacked_unpack (UInt64.ofNat n).toBitVec
  rw [hn] at hu
  change ofFloat (.ofModel (.pack (UnpackedFloat.unpack .binary64 (UInt64.ofNat n).toBitVec))) = _
  rw [ofFloat_pack, hu, saturate_ofParts _ _ (Nat.mod_lt _ (by decide))]
  rw [hu]
  exact ofParts_scaled _ _ (Nat.mod_lt _ (by decide))

/-- Putting together and splitting is the identity on the doubles in range. -/
theorem ofFloat_toFloat {negative : Bool} {s : Nat} {e : Int}
    (h : (finite negative s e).Scaled) (he : e ≤ greatestExponent) :
    ofFloat (finite negative s e).toFloat = finite negative s e := by
  obtain ⟨hu, hl, hn⟩ := h
  have hmax : greatestExponent = 971 := rfl
  have hmin : leastExponent = -1074 := rfl
  have hhid : hidden = 0x10000000000000 := rfl
  have hsign : (if negative then 0x8000000000000000 else 0) ≤ 0x8000000000000000 := by
    cases negative <;> decide
  have hfull : s < hidden ∨ s - hidden + hidden = s := by omega
  change ofFloat (.ofBits (.ofNat ((if s < hidden then s else
    (e - leastExponent).toNat * hidden + s) + if negative then 0x8000000000000000 else 0))) = _
  by_cases hs : s < hidden
  · rw [if_pos hs, ofFloat_ofBits _ (by omega),
      @ofParts_bits negative 0 s (by decide) hs _ (by omega), ofParts, if_neg (by decide),
      if_pos rfl, hn.resolve_left (by omega)]
  · have he' : ((e - leastExponent + 1).toNat : Int) - 1 + leastExponent = e := by omega
    rw [if_neg hs, ofFloat_ofBits _ (by rw [hhid]; omega),
      @ofParts_bits negative (e - leastExponent + 1).toNat (s - hidden) (by omega) (by omega) _
        (by rw [hhid] at *; omega), ofParts, if_neg (by omega), if_neg (by omega),
      hfull.resolve_left hs, he']

end RobotHand.Binary64
