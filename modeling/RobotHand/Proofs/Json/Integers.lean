import RobotHand.Json.Printing
import RobotHand.Json.Reading
import RobotHand.Proofs.Digits
import RobotHand.Proofs.Printing.Scanning

/-! Printed integers are read back. -/
namespace RobotHand.Json.Token

open Decimal (valueOf)

def names : List (List Char) :=
  ["null", "true", "false", "NaN", "Infinity", "-Infinity"].map String.toList

/-- Digits without a sign, or with a minus before them. -/
def withSign (negative : Bool) (s : List Char) : List Char := if negative then '-' :: s else s

theorem withSign_not_mem_names {c : Char} (hc : c.isDigit) (cs : List Char) (negative : Bool) :
    withSign negative (c :: cs) ∉ names := by
  intro h
  cases negative with
  | true =>
    simp [withSign, names] at h
    rcases h with ⟨rfl, -⟩
    exact absurd hc (by decide)
  | false =>
    simp [withSign, names] at h
    rcases h with ⟨rfl, -⟩ | ⟨rfl, -⟩ | ⟨rfl, -⟩ | ⟨rfl, -⟩ | ⟨rfl, -⟩ | ⟨rfl, -⟩
    all_goals exact absurd hc (by decide)

/-- A word that begins with a digit, or a minus and a digit, is a number if anything. -/
theorem wordValue_withSign {c : Char} (hc : c.isDigit) (cs : List Char) (negative : Bool) :
    wordValue? (withSign negative (c :: cs)) = unsigned? negative (c :: cs) := by
  have hne : ∀ t : String, t.toList ∈ names → String.ofList (withSign negative (c :: cs)) ≠ t := by
    rintro t ht rfl
    rw [String.toList_ofList] at ht
    exact withSign_not_mem_names hc cs negative ht
  unfold wordValue?
  split
  iterate 6
    next heq => exact absurd heq (hne _ (by simp [names]))
  cases negative with
  | true => rfl
  | false =>
    simp only [withSign, Bool.false_eq_true, if_false]
    split
    · next r heq =>
      rw [(List.cons.inj heq).1] at hc
      exact absurd hc (by decide)
    · rfl

/-- The whole part of a number: digits, of which a zero is not followed by others. -/
structure IsWhole (whole : List Char) : Prop where
  ne_nil : whole ≠ []
  digits : ∀ c ∈ whole, c.isDigit
  zero : whole.head? = some '0' → whole = ['0']

variable {whole fraction rest : List Char} {negative : Bool}

/-- What cannot go on with digits. -/
def EndsDigits (rest : List Char) : Prop := ∀ c ∈ rest.head?, c.isDigit = false

theorem endsDigits_nil : EndsDigits [] := by
  rintro c ⟨⟩

theorem endsDigits_cons {c : Char} (hc : c.isDigit = false) (cs : List Char) :
    EndsDigits (c :: cs) := by
  rintro d ⟨⟩
  exact hc

theorem digits_append (hne : whole ≠ []) (h : ∀ c ∈ whole, c.isDigit) (hrest : EndsDigits rest) :
    digits? (whole ++ rest) = some (whole, rest) := by
  obtain ⟨htake, hdrop⟩ := Formula.takeWhile_append_of_boundary rest h hrest
  rw [digits?, htake, hdrop, if_neg]
  rw [List.isEmpty_iff]
  exact hne

theorem unsigned_whole (h : IsWhole whole) :
    unsigned? negative whole =
      some (.int (if negative then -(valueOf whole : Int) else valueOf whole)) := by
  have hdigits : digits? whole = some (whole, []) := by
    have happend := digits_append h.ne_nil h.digits endsDigits_nil
    rwa [List.append_nil] at happend
  have hzero : ¬ (whole.head? = some '0' ∧ whole ≠ ['0']) := fun hz => hz.2 (h.zero hz.1)
  rw [unsigned?, hdigits]
  dsimp only [Option.bind_eq_bind, Option.bind_some]
  rw [if_neg hzero]

theorem toList_toString (i : Int) :
    (toString i).toList = withSign (decide (i < 0)) (Nat.toDigits 10 i.natAbs) := by
  rw [Int.toString_eq_repr, Int.repr_eq_if]
  split
  · next h =>
    have hsign : decide (i < 0) = false := decide_eq_false (Int.not_lt.2 h)
    have habs : i.toNat = i.natAbs := by omega
    rw [hsign, habs, Nat.toList_repr]
    rfl
  · next h =>
    have hsign : decide (i < 0) = true := decide_eq_true (Int.not_le.1 h)
    have habs : (-i).toNat = i.natAbs := by omega
    rw [hsign, habs, String.toList_append, Nat.toList_repr]
    rfl

theorem isWhole_of_ne_zero {c : Char} {cs : List Char} (hc : c ≠ '0')
    (h : ∀ d ∈ c :: cs, d.isDigit) : IsWhole (c :: cs) where
  ne_nil := List.cons_ne_nil c cs
  digits := h
  zero hzero := absurd (Option.some.inj hzero) hc

theorem isWhole_zero : IsWhole ['0'] where
  ne_nil := List.cons_ne_nil '0' []
  digits := Decimal.isDigit_zeros 1
  zero _ := rfl

theorem isWhole_toDigits (n : Nat) : IsWhole (Nat.toDigits 10 n) := by
  rcases Nat.eq_zero_or_pos n with rfl | hn
  · exact isWhole_zero
  · obtain ⟨c, cs, hdigits, hc⟩ := Decimal.exists_toDigits_cons hn
    have hall := @Decimal.isDigit_toDigits n
    rw [hdigits] at hall ⊢
    exact isWhole_of_ne_zero hc hall

/-- A word that begins with the whole part of a number is that number. -/
theorem wordValue_whole (h : IsWhole whole) (rest : List Char) :
    wordValue? (withSign negative (whole ++ rest)) = unsigned? negative (whole ++ rest) := by
  obtain ⟨c, cs, rfl⟩ := List.exists_cons_of_ne_nil h.ne_nil
  exact wordValue_withSign (h.digits c List.mem_cons_self) (cs ++ rest) negative

theorem isWordPart_of_isDigit {c : Char} (h : c.isDigit) : isWordPart c := by
  simp [isWordPart, Char.isAlphanum, h]

theorem isWordPart_toString (e : Int) : ∀ c ∈ (toString e).toList, isWordPart c := by
  intro c hc
  rw [toList_toString, withSign] at hc
  split at hc
  · rcases List.mem_cons.1 hc with rfl | hc
    · rfl
    · exact isWordPart_of_isDigit (Decimal.isDigit_toDigits c hc)
  · exact isWordPart_of_isDigit (Decimal.isDigit_toDigits c hc)

theorem ne_nil_of_wordValue {w : List Char} {v : Json} (h : wordValue? w = some v) : w ≠ [] := by
  rintro rfl
  exact absurd h (Option.some_ne_none v).symm

/-- An integer is read back. -/
theorem wordValue_toString (i : Int) : wordValue? (toString i).toList = some (.int i) := by
  have hwhole := isWhole_toDigits i.natAbs
  have hword := @wordValue_whole _ (decide (i < 0)) hwhole []
  rw [List.append_nil, unsigned_whole hwhole, Decimal.valueOf_toDigits] at hword
  have hvalue : (if decide (i < 0) then -(i.natAbs : Int) else i.natAbs) = i := by
    by_cases hi : i < 0
    · rw [decide_eq_true hi, if_pos rfl]
      omega
    · rw [decide_eq_false hi, if_neg Bool.false_ne_true]
      omega
  rw [toList_toString, hword, hvalue]

end RobotHand.Json.Token
