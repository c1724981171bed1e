import RobotHand.Proofs.Double.Shortest
import RobotHand.Proofs.Json.Integers

/-! Printed doubles are read back. -/
namespace RobotHand

namespace Json.Token

open Decimal (valueOf)

variable {whole fraction : List Char} {negative : Bool}

/-- The value that digits and an exponent write, with a sign. -/
def signedReal (negative : Bool) (d : Nat) (k : Int) : Json :=
  .real (if negative then -Decimal.toFloat d k else Decimal.toFloat d k)

theorem unsigned_point (h : IsWhole whole) (hne : fraction ≠ [])
    (hfraction : ∀ c ∈ fraction, c.isDigit) :
    unsigned? negative (whole ++ '.' :: fraction) =
      some (signedReal negative (valueOf (whole ++ fraction)) (-fraction.length)) := by
  have hdigits := digits_append h.ne_nil h.digits (endsDigits_cons (c := '.') rfl fraction)
  have hdigits' : digits? fraction = some (fraction, []) := by
    have happend := digits_append hne hfraction endsDigits_nil
    rwa [List.append_nil] at happend
  have hzero : ¬ (whole.head? = some '0' ∧ whole ≠ ['0']) := fun hz => hz.2 (h.zero hz.1)
  rw [unsigned?, hdigits]
  dsimp only [Option.bind_eq_bind, Option.bind_some]
  rw [if_neg hzero]
  change (digits? fraction).bind _ = _
  rw [hdigits', Option.bind_some]
  rw [Int.zero_sub]
  rfl

theorem sign_withSign {c : Char} (hc : c.isDigit) (cs : List Char) (negative : Bool) :
    Integer.sign (withSign negative (c :: cs)) = (negative, c :: cs) := by
  cases negative with
  | true => rfl
  | false =>
    simp only [withSign, Bool.false_eq_true, if_false]
    unfold Integer.sign
    split
    · next heq =>
      rw [(List.cons.inj heq).1] at hc
      exact absurd hc (by decide)
    · next heq =>
      rw [(List.cons.inj heq).1] at hc
      exact absurd hc (by decide)
    · rfl

theorem exponent_toString (e : Int) : Decimal.exponent? ('e' :: (toString e).toList) = some e := by
  obtain ⟨c, cs, hdigits⟩ := List.exists_cons_of_ne_nil (@Nat.toDigits_ne_nil e.natAbs 10)
  have hall := @Decimal.isDigit_toDigits e.natAbs
  have hvalue := Decimal.valueOf_toDigits e.natAbs
  rw [hdigits] at hall hvalue
  rw [toList_toString, hdigits, Decimal.exponent?, sign_withSign (hall c List.mem_cons_self)]
  dsimp only
  rw [if_pos ⟨.inl rfl, List.cons_ne_nil c cs, List.all_eq_true.2 hall⟩, hvalue]
  by_cases h : e < 0
  · rw [decide_eq_true h, if_pos rfl]
    congr 1
    omega
  · rw [decide_eq_false h, if_neg Bool.false_ne_true]
    congr 1
    omega

theorem unsigned_exponent (h : IsWhole whole) (hfraction : ∀ c ∈ fraction, c.isDigit) (e : Int) :
    unsigned? negative ((Decimal.withFraction whole fraction).toList ++
        'e' :: (toString e).toList) =
      some (signedReal negative (valueOf (whole ++ fraction)) (e - fraction.length)) := by
  have hexponent := exponent_toString e
  have hends := endsDigits_cons (c := 'e') rfl (toString e).toList
  have hzero : ¬ (whole.head? = some '0' ∧ whole ≠ ['0']) := fun hz => hz.2 (h.zero hz.1)
  rw [Decimal.withFraction, String.toList_ofList]
  cases fraction with
  | nil =>
    have hdigits := digits_append h.ne_nil h.digits hends
    rw [List.isEmpty_nil, if_pos rfl, unsigned?, hdigits]
    dsimp only [Option.bind_eq_bind, Option.bind_some]
    rw [if_neg hzero]
    change (Decimal.exponent? ('e' :: (toString e).toList)).map _ = _
    rw [hexponent]
    rfl
  | cons d ds =>
    have hdigits := digits_append h.ne_nil h.digits
      (endsDigits_cons (c := '.') rfl (d :: ds ++ 'e' :: (toString e).toList))
    have hdigits' := digits_append (List.cons_ne_nil d ds) hfraction hends
    rw [List.isEmpty_cons, if_neg Bool.false_ne_true, List.append_assoc, List.cons_append,
      unsigned?, hdigits]
    dsimp only [Option.bind_eq_bind, Option.bind_some, List.cons_append]
    rw [if_neg hzero]
    change (digits? (d :: ds ++ 'e' :: (toString e).toList)).bind _ = _
    rw [hdigits', Option.bind_some]
    change (Decimal.exponent? ('e' :: (toString e).toList)).map _ = _
    rw [hexponent]
    rfl

end Json.Token

namespace Decimal

open Json.Token

variable {d : Nat}

/-- The digits of a positive number are those that `positional` writes, and zeros. -/
theorem exists_dropZeros (hd : 0 < d) :
    ∃ j, (dropZeros (Nat.toDigits 10 d)).length + j = (Nat.toDigits 10 d).length ∧
      valueOf (dropZeros (Nat.toDigits 10 d)) * 10 ^ j = d ∧
      ∃ c cs, dropZeros (Nat.toDigits 10 d) = c :: cs ∧ c ≠ '0' ∧ ∀ b ∈ c :: cs, b.isDigit := by
  obtain ⟨j, hsplit⟩ := dropZeros_append_zeros (Nat.toDigits 10 d)
  obtain ⟨c, cs, hdigits, hc⟩ := exists_toDigits_cons hd
  have hall : ∀ b ∈ dropZeros (Nat.toDigits 10 d), b.isDigit := by
    intro b hb
    apply @isDigit_toDigits d
    rw [hsplit]
    exact List.mem_append_left _ hb
  have hlength := congrArg List.length hsplit
  rw [List.length_append, List.length_replicate] at hlength
  refine ⟨j, hlength.symm, ?_, ?_⟩
  · rw [← valueOf_append_zeros hall, ← hsplit, valueOf_toDigits]
  · rw [hdigits] at hsplit hall ⊢
    cases hdrop : dropZeros (c :: cs) with
    | nil =>
      rw [hdrop, List.nil_append] at hsplit
      exact absurd (List.eq_of_mem_replicate (hsplit ▸ List.mem_cons_self)) hc
    | cons b bs =>
      rw [hdrop, List.cons_append] at hsplit
      rw [hdrop] at hall
      exact ⟨b, bs, rfl, (List.cons.inj hsplit).1 ▸ hc, hall⟩

theorem toFloat_zero (k : Int) : toFloat 0 k = Binary64.zero.toFloat := by
  rw [toFloat, nearest, if_pos (.inl rfl)]

theorem isWordPart_withFraction {whole fraction : List Char} (hwhole : ∀ c ∈ whole, c.isDigit)
    (hfraction : ∀ c ∈ fraction, c.isDigit) :
    ∀ c ∈ (withFraction whole fraction).toList, isWordPart c := by
  intro c hc
  rw [withFraction, String.toList_ofList] at hc
  split at hc
  · exact isWordPart_of_isDigit (hwhole c hc)
  · simp only [List.mem_append, List.mem_cons] at hc
    obtain hc | rfl | hc := hc
    · exact isWordPart_of_isDigit (hwhole c hc)
    · rfl
    · exact isWordPart_of_isDigit (hfraction c hc)

/-- A text is one word, which is read as `d * 10 ^ k` without a sign and with one. -/
structure Writes (text : List Char) (d : Nat) (k : Int) : Prop where
  word : ∀ c ∈ text, isWordPart c
  value (negative : Bool) : wordValue? (withSign negative text) = some (signedReal negative d k)

namespace Writes

variable {text whole fraction rest : List Char} {d : Nat} {k : Int}

theorem congr (h : Writes text d k) {d' : Nat} {k' : Int} (heq : toFloat d k = toFloat d' k') :
    Writes text d' k' where
  word := h.word
  value negative := by
    rw [h.value, signedReal, signedReal, heq]

theorem point (h : IsWhole whole) (hne : fraction ≠ [])
    (hfraction : ∀ c ∈ fraction, c.isDigit) :
    Writes (whole ++ '.' :: fraction) (valueOf (whole ++ fraction)) (-fraction.length) where
  word c hc := by
    rcases List.mem_append.1 hc with hc | hc
    · exact isWordPart_of_isDigit (h.digits c hc)
    · rcases List.mem_cons.1 hc with rfl | hc
      · rfl
      · exact isWordPart_of_isDigit (hfraction c hc)
  value negative := by
    rw [wordValue_whole h, unsigned_point h hne hfraction]

theorem exponent (h : IsWhole whole) (hfraction : ∀ c ∈ fraction, c.isDigit) (e : Int) :
    Writes ((withFraction whole fraction).toList ++ 'e' :: (toString e).toList)
      (valueOf (whole ++ fraction)) (e - fraction.length) where
  word c hc := by
    rcases List.mem_append.1 hc with hc | hc
    · exact isWordPart_withFraction h.digits hfraction c hc
    · rcases List.mem_cons.1 hc with rfl | hc
      · rfl
      · exact isWordPart_toString e c hc
  value negative := by
    have hunsigned := @unsigned_exponent _ _ negative h hfraction e
    obtain ⟨rest, htext⟩ : ∃ rest,
        (withFraction whole fraction).toList ++ 'e' :: (toString e).toList = whole ++ rest := by
      rw [withFraction, String.toList_ofList]
      split
      · exact ⟨_, rfl⟩
      · exact ⟨_, List.append_assoc _ _ _⟩
    rw [htext] at hunsigned ⊢
    rw [wordValue_whole h, hunsigned]

end Writes

section Digits

variable {c : Char} {cs : List Char} {point : Int}

theorem writes_scientific (hc : c ≠ '0') (hall : ∀ b ∈ c :: cs, b.isDigit) :
    Writes (withFraction [c] cs ++ "e" ++ toString (point - 1)).toList (valueOf (c :: cs))
      (point - (c :: cs).length) := by
  have hone := @isWhole_of_ne_zero c [] hc fun b hb =>
    hall b (List.mem_cons.2 (.inl (List.mem_singleton.1 hb)))
  have hwrites := Writes.exponent hone (fun b hb => hall b (List.mem_cons_of_mem c hb)) (point - 1)
  rw [String.toList_append, String.toList_append, List.append_assoc]
  refine hwrites.congr (congrArg (toFloat _) ?_)
  rw [List.length_cons, Int.natCast_succ]
  omega

theorem writes_after_point (hall : ∀ b ∈ c :: cs, b.isDigit) (hpoint : point ≤ 0) :
    Writes (String.ofList ("0.".toList ++ List.replicate (-point).toNat '0' ++ c :: cs)).toList
      (valueOf (c :: cs)) (point - (c :: cs).length) := by
  have hdigits := isDigit_append (isDigit_zeros (-point).toNat) hall
  have hwrites := Writes.point isWhole_zero
    (List.append_ne_nil_of_right_ne_nil _ (List.cons_ne_nil c cs)) hdigits
  have hvalue : valueOf (['0'] ++ (List.replicate (-point).toNat '0' ++ c :: cs)) =
      valueOf (c :: cs) := by
    rw [← List.append_assoc]
    exact valueOf_zeros_append hall ((-point).toNat + 1)
  have hcount : -((List.replicate (-point).toNat '0' ++ c :: cs).length : Int) =
      point - (c :: cs).length := by
    rw [List.length_append, List.length_replicate]
    omega
  rw [hvalue, hcount] at hwrites
  rw [String.toList_ofList, List.append_assoc]
  exact hwrites

theorem writes_before_point (hc : c ≠ '0') (hall : ∀ b ∈ c :: cs, b.isDigit)
    (hlow : (c :: cs).length ≤ point) :
    Writes (String.ofList (c :: cs ++ List.replicate (point.toNat - (c :: cs).length) '0' ++
        ['.', '0'])).toList
      (valueOf (c :: cs)) (point - (c :: cs).length) := by
  obtain ⟨zeros, hzeros⟩ : ∃ zeros, zeros = point.toNat - (c :: cs).length := ⟨_, rfl⟩
  rw [← hzeros, String.toList_ofList]
  have hwhole : IsWhole (c :: (cs ++ List.replicate zeros '0')) :=
    isWhole_of_ne_zero hc (isDigit_append hall (isDigit_zeros zeros))
  have hwrites := Writes.point hwhole (List.cons_ne_nil '0' []) (isDigit_zeros 1)
  have hvalue : valueOf (c :: (cs ++ List.replicate zeros '0') ++ ['0']) =
      valueOf (c :: cs) * 10 ^ (zeros + 1) := by
    rw [← valueOf_append_zeros hall, List.replicate_succ', ← List.cons_append, List.append_assoc]
  rw [hvalue] at hwrites
  refine hwrites.congr ?_
  rw [toFloat_mul_pow]
  refine congrArg (toFloat _) ?_
  rw [List.length_singleton]
  omega

theorem writes_at_point (hc : c ≠ '0') (hall : ∀ b ∈ c :: cs, b.isDigit) (hpos : 0 < point)
    (hlow : point < (c :: cs).length) :
    Writes (withFraction ((c :: cs).take point.toNat) ((c :: cs).drop point.toNat)).toList
      (valueOf (c :: cs)) (point - (c :: cs).length) := by
  obtain ⟨n, rfl⟩ : ∃ n : Nat, point = n + 1 := ⟨(point - 1).toNat, by omega⟩
  rw [Int.toNat_natCast_add_one, List.take_succ_cons, List.drop_succ_cons]
  rw [List.length_cons, Int.natCast_succ] at hlow ⊢
  have hwhole := @isWhole_of_ne_zero c (cs.take n) hc fun b hb =>
    hall b (List.mem_of_mem_take (i := n + 1) hb)
  have hfraction : ∀ b ∈ cs.drop n, b.isDigit := fun b hb =>
    hall b (List.mem_cons_of_mem c (List.mem_of_mem_drop hb))
  have hne : cs.drop n ≠ [] := by
    rw [ne_eq, List.drop_eq_nil_iff]
    omega
  have hwrites := Writes.point hwhole hne hfraction
  have hcount : -((cs.drop n).length : Int) = n + 1 - (cs.length + 1) := by
    rw [List.length_drop]
    omega
  have hvalue : c :: cs.take n ++ cs.drop n = c :: cs := by
    rw [List.cons_append, List.take_append_drop]
  rw [hvalue, hcount] at hwrites
  rw [withFraction, String.toList_ofList, if_neg]
  · exact hwrites
  · rw [List.isEmpty_iff]
    exact hne

end Digits

/-- A number in positional digits, or with an exponent, is read as the number it writes. -/
theorem writes_positional (d : Nat) (k : Int) : Writes (positional d k).toList d k := by
  rcases Nat.eq_zero_or_pos d with rfl | hd
  · have hzero := Writes.point isWhole_zero (List.cons_ne_nil '0' []) (isDigit_zeros 1)
    rw [positional, if_pos rfl]
    exact hzero.congr ((toFloat_zero _).trans (toFloat_zero k).symm)
  obtain ⟨j, hlength, hvalue, c, cs, hdigits, hc, hall⟩ := exists_dropZeros hd
  have hfloat : toFloat (valueOf (c :: cs)) (k + j) = toFloat d k := by
    rw [← toFloat_mul_pow, ← hdigits, hvalue]
  rw [hdigits] at hlength
  unfold positional
  dsimp only
  rw [if_neg hd.ne', hdigits]
  generalize hpoint : ((Nat.toDigits 10 d).length : Int) + k = point
  have hexponent : k + j = point - (c :: cs).length := by omega
  rw [hexponent] at hfloat
  refine Writes.congr ?_ hfloat
  -- The point stands behind the first digit, before all digits, behind them, or among them.
  split
  · exact writes_scientific hc hall
  split
  · exact writes_after_point hall ‹_›
  split
  · exact writes_before_point hc hall ‹_›
  · exact writes_at_point hc hall (by omega) (by omega)

variable {x : Float} {negative : Bool} {s : Nat} {e : Int}

theorem toList_plain (h : Binary64.ofFloat x = .finite negative s e) :
    (plain x).toList =
      withSign negative (positional (shortest x.abs).1 (shortest x.abs).2).toList := by
  rw [plain, special, h]
  cases negative with
  | true => exact String.toList_append
  | false => exact congrArg String.toList (String.empty_append)

theorem toFloat_shortest_abs (h : Binary64.ofFloat x = .finite negative s e) :
    toFloat (shortest x.abs).1 (shortest x.abs).2 = x.abs := by
  have habs := Binary64.ofFloat_abs h
  rcases Nat.eq_zero_or_pos s with rfl | hs
  · have hdouble := Binary64.ofFloat_isDouble x.abs
    rw [habs] at hdouble
    obtain ⟨-, -, hnormal | hleast⟩ := hdouble.1
    · exact absurd hnormal (by decide)
    rw [shortest_zero habs, toFloat_zero]
    rw [hleast] at habs
    exact Binary64.toFloat_of_ofFloat habs
  · exact toFloat_shortest habs hs

/-- A finite double is one word. -/
theorem isWordPart_plain (h : (Binary64.ofFloat x).isFinite) :
    ∀ c ∈ (plain x).toList, isWordPart c := by
  obtain ⟨negative, s, e, hx⟩ := Binary64.exists_of_isFinite h
  have hword := (writes_positional (shortest x.abs).1 (shortest x.abs).2).word
  rw [toList_plain hx]
  cases negative with
  | true =>
    intro c hc
    rcases List.mem_cons.1 hc with rfl | hc
    · rfl
    · exact hword c hc
  | false => exact hword

/-- A finite double is read back. -/
theorem wordValue_plain (h : (Binary64.ofFloat x).isFinite) :
    wordValue? (plain x).toList = some (.real x) := by
  obtain ⟨negative, s, e, hx⟩ := Binary64.exists_of_isFinite h
  rw [toList_plain hx, (writes_positional _ _).value, signedReal, toFloat_shortest_abs hx,
    Binary64.abs_with_sign hx]

end Decimal
end RobotHand
