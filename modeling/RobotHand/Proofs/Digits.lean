import RobotHand.Number.Decimal
import RobotHand.Number.Literal
import Mathlib

/-! Digits, the numbers that they write, and the zeros at their ends. -/
namespace RobotHand.Decimal

variable {ds : List Char}

theorem toNat_of_isDigit {c : Char} (h : c.isDigit) :
    '0'.toNat ≤ c.toNat ∧ c.toNat < '0'.toNat + 10 := by
  simp only [Char.isDigit, Bool.and_eq_true, decide_eq_true_eq, UInt32.le_iff_toNat_le] at h
  change 48 ≤ c.toNat ∧ c.toNat ≤ 57 at h
  change 48 ≤ c.toNat ∧ c.toNat < 58
  omega

theorem digitValue_of_isDigit {c : Char} (h : c.isDigit) :
    digitValue? c = some (c.toNat - '0'.toNat) := by
  have hrange : 0x30 ≤ c.toNat ∧ c.toNat < 0x30 + 10 := toNat_of_isDigit h
  simp [digitValue?, decimalZeros, hrange.1, hrange.2]

/-- ASCII digits write the number that they are the digits of. -/
theorem valueOf_eq (h : ∀ c ∈ ds, c.isDigit) : valueOf ds = Nat.ofDigitChars 10 ds 0 := by
  have hmap : ds.filterMap digitValue? = ds.map fun c => c.toNat - '0'.toNat := by
    rw [← List.filterMap_eq_map]
    exact List.filterMap_congr fun c hc => digitValue_of_isDigit (h c hc)
  rw [valueOf, hmap, numberOfDigits, List.foldl_map]
  rfl

theorem isDigit_toDigits {n : Nat} : ∀ c ∈ Nat.toDigits 10 n, c.isDigit := fun _ hc =>
  Nat.isDigit_of_mem_toDigits (by decide) (by decide) hc

theorem valueOf_toDigits (n : Nat) : valueOf (Nat.toDigits 10 n) = n := by
  rw [valueOf_eq isDigit_toDigits, Nat.ofDigitChars_ten_toDigits]

theorem isDigit_append {ds' : List Char} (h : ∀ c ∈ ds, c.isDigit) (h' : ∀ c ∈ ds', c.isDigit) :
    ∀ c ∈ ds ++ ds', c.isDigit := fun c hc =>
  (List.mem_append.1 hc).elim (h c) (h' c)

theorem isDigit_zeros (k : Nat) : ∀ c ∈ List.replicate k '0', c.isDigit := fun c hc => by
  rw [List.eq_of_mem_replicate hc]
  rfl

theorem valueOf_zeros_append (h : ∀ c ∈ ds, c.isDigit) (k : Nat) :
    valueOf (List.replicate k '0' ++ ds) = valueOf ds := by
  rw [valueOf_eq (isDigit_append (isDigit_zeros k) h), valueOf_eq h, Nat.ofDigitChars_append,
    Nat.ofDigitChars_replicate_zero, Nat.mul_zero]

theorem valueOf_append_zeros (h : ∀ c ∈ ds, c.isDigit) (k : Nat) :
    valueOf (ds ++ List.replicate k '0') = valueOf ds * 10 ^ k := by
  rw [valueOf_eq (isDigit_append h (isDigit_zeros k)), valueOf_eq h, Nat.ofDigitChars_append,
    Nat.ofDigitChars_replicate_zero, Nat.mul_comm]

theorem dropZeros_append_zeros (ds : List Char) :
    ∃ k, ds = dropZeros ds ++ List.replicate k '0' := by
  have hsplit := List.takeWhile_append_dropWhile (p := (· == '0')) (l := ds.reverse)
  have hall : ∀ c ∈ ds.reverse.takeWhile (· == '0'), c = '0' := by
    intro c hc
    have hzero := List.mem_takeWhile_imp hc
    exact beq_iff_eq.1 hzero
  have hzeros := List.eq_replicate_of_mem hall
  refine ⟨(ds.reverse.takeWhile (· == '0')).length, ?_⟩
  calc ds = (ds.reverse.takeWhile (· == '0') ++ ds.reverse.dropWhile (· == '0')).reverse := by
        rw [hsplit, List.reverse_reverse]
    _ = dropZeros ds ++ (ds.reverse.takeWhile (· == '0')).reverse := List.reverse_append
    _ = dropZeros ds ++ List.replicate (ds.reverse.takeWhile (· == '0')).length '0' := by
        conv_lhs => rw [hzeros, List.reverse_replicate]

/-- A positive number does not begin with a zero. -/
theorem exists_toDigits_cons {n : Nat} (hn : 0 < n) :
    ∃ c cs, Nat.toDigits 10 n = c :: cs ∧ c ≠ '0' := by
  induction n using Nat.strongRecOn with
  | ind n ih =>
    rcases Nat.lt_or_ge n 10 with hlt | hge
    · refine ⟨n.digitChar, [], Nat.toDigits_of_lt_base hlt, ?_⟩
      interval_cases n <;> decide
    · obtain ⟨c, cs, hdigits, hc⟩ := ih (n / 10) (by omega) (by omega)
      refine ⟨c, cs ++ [(n % 10).digitChar], ?_, hc⟩
      rw [Nat.toDigits_of_base_le (by decide) hge, hdigits]
      rfl

end RobotHand.Decimal
