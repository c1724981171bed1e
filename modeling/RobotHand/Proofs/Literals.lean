import RobotHand.Number.Integer
import RobotHand.Proofs.Json.Integers

/-! Integer literals as a grammar: a text is read as an integer exactly if it writes it. -/
namespace RobotHand.Integer

/-- Decimal digits of any script with their values; single underscores may stand between them. -/
inductive IsNumeral : List Char → List Nat → Prop
  | digit {c d} (h : digitValue? c = some d) : IsNumeral [c] [d]
  | next {c d cs ds} (h : digitValue? c = some d) (hcs : IsNumeral cs ds) :
    IsNumeral (c :: cs) (d :: ds)
  | apart {c d cs ds} (h : digitValue? c = some d) (hcs : IsNumeral cs ds) :
    IsNumeral (c :: '_' :: cs) (d :: ds)

/-- One sign or none; the flag tells a minus. -/
inductive IsSign : Bool → List Char → Prop
  | absent : IsSign false []
  | plus : IsSign false ['+']
  | minus : IsSign true ['-']

/-- The integer of a sign and digits. -/
def signed (negative : Bool) (n : Nat) : Int := if negative then -(n : Int) else n

/-- A text is a literal of an integer: a sign and a numeral of not too many digits, with blanks
around. -/
def Writes (s : String) (i : Int) : Prop :=
  ∃ before signs body after negative ds, s.toList = before ++ (signs ++ (body ++ after)) ∧
    (∀ c ∈ before, isOuterBlank c) ∧ (∀ c ∈ after, isOuterBlank c) ∧ IsSign negative signs ∧
      IsNumeral body ds ∧ ds.length ≤ Breakdown.digitLimit ∧ i = signed negative (numberOfDigits ds)

variable {s : String} {i j : Int} {c : Char} {d : Nat} {cs rest body signs before after : List Char}
  {ds : List Nat} {negative : Bool}

/-- The digits of all scripts stand apart from the blanks and the marks of literals. -/
theorem toNat_of_digitValue (h : digitValue? c = some d) :
    0x30 ≤ c.toNat ∧ c.toNat < 0x3a ∨ 0x660 ≤ c.toNat ∧ c.toNat < 0x1680 ∨
      0x1680 < c.toNat ∧ c.toNat < 0x2000 ∨ 0x205f < c.toNat ∧ c.toNat < 0x3000 ∨
        0x3000 < c.toNat := by
  have hzeros : ∀ z ∈ decimalZeros, z = 0x30 ∨ 0x660 ≤ z ∧ z + 10 ≤ 0x1680 ∨
      0x1680 < z ∧ z + 10 ≤ 0x2000 ∨ 0x205f < z ∧ z + 10 ≤ 0x3000 ∨ 0x3000 < z := by decide
  obtain ⟨z, hz, -⟩ := Option.map_eq_some_iff.1 h
  have hrange := List.find?_some hz
  rw [Bool.and_eq_true, decide_eq_true_iff, decide_eq_true_iff] at hrange
  have hzero := hzeros z (List.mem_of_find?_eq_some hz)
  omega

theorem isOuterBlank_of_digitValue (h : digitValue? c = some d) : isOuterBlank c = false := by
  have hrange := toNat_of_digitValue h
  simp only [isOuterBlank, isBlankChar, Bool.and_eq_false_iff, Bool.or_eq_false_iff,
    decide_eq_false_iff_not, beq_eq_false_iff_ne]
  omega

theorem ne_mark_of_digitValue (h : digitValue? c = some d) : c ≠ '_' ∧ c ≠ '+' ∧ c ≠ '-' := by
  have hrange := toNat_of_digitValue h
  refine ⟨?_, ?_, ?_⟩
  all_goals
    rintro rfl
    exact absurd hrange (by decide)

/-- What cannot go on with a numeral. -/
def EndsNumeral (rest : List Char) : Prop := ∀ c ∈ rest.head?, digitValue? c = none ∧ c ≠ '_'

theorem endsNumeral_of_blank (h : ∀ c ∈ rest, isOuterBlank c) : EndsNumeral rest := by
  intro c hc
  have hblank := h c (List.mem_of_mem_head? hc)
  refine ⟨?_, ?_⟩
  · cases hd : digitValue? c with
    | none => rfl
    | some d =>
      rw [isOuterBlank_of_digitValue hd] at hblank
      exact absurd hblank Bool.false_ne_true
  · rintro rfl
    exact absurd hblank (by decide)

theorem digits_of_ends (h : EndsNumeral rest) : digits rest = some ([], rest) := by
  cases rest with
  | nil => rfl
  | cons c rest =>
    obtain ⟨hc, hne⟩ := h c rfl
    unfold digits
    split
    · next heq => cases heq
    · next heq => exact absurd (List.cons.inj heq).1 hne
    · next heq =>
      cases heq
      rw [hc]
    · next heq =>
      cases heq
      rw [hc]

/-- A digit goes before the digits that follow it, unless an underscore does. -/
theorem digits_next (hc : digitValue? c = some d) (hcs : cs.head? ≠ some '_') :
    digits (c :: cs) = (digits cs).map fun p => (d :: p.1, p.2) := by
  have hne := (ne_mark_of_digitValue hc).1
  rw [digits.eq_def]
  split
  · next heq => cases heq
  · next heq => exact absurd (List.cons.inj heq).1 hne
  · next heq =>
    cases heq
    exact absurd rfl hcs
  · next heq =>
    cases heq
    rw [hc]

theorem digits_apart (hc : digitValue? c = some d) (hcs : digits cs = some (ds, rest))
    (hne : ds ≠ []) : digits (c :: '_' :: cs) = some (d :: ds, rest) := by
  obtain ⟨d', ds, rfl⟩ := List.exists_cons_of_ne_nil hne
  have hmark := (ne_mark_of_digitValue hc).1
  rw [digits.eq_def]
  split
  · next heq => cases heq
  · next heq => exact absurd (List.cons.inj heq).1 hmark
  · next heq =>
    cases heq
    rw [hc, hcs]
  · next hnot heq =>
    cases heq
    exact absurd rfl (hnot _)

theorem IsNumeral.ne_nil (h : IsNumeral body ds) : ds ≠ [] := by
  cases h <;> exact List.cons_ne_nil _ _

theorem IsNumeral.exists_cons (h : IsNumeral body ds) :
    ∃ c d cs, body = c :: cs ∧ digitValue? c = some d := by
  cases h with
  | digit h | next h | apart h => exact ⟨_, _, _, rfl, h⟩

theorem IsNumeral.head_ne (h : IsNumeral body ds) (rest : List Char) :
    (body ++ rest).head? ≠ some '_' := by
  obtain ⟨c, d, cs, rfl, hc⟩ := h.exists_cons
  exact fun heq => (ne_mark_of_digitValue hc).1 (Option.some.inj heq)

/-- A numeral is read up to its end. -/
theorem digits_append (h : IsNumeral body ds) (hrest : EndsNumeral rest) :
    digits (body ++ rest) = some (ds, rest) := by
  induction h with
  | digit hc =>
    have hhead : rest.head? ≠ some '_' := fun heq => (hrest '_' heq).2 rfl
    rw [List.singleton_append, digits_next hc hhead, digits_of_ends hrest]
    rfl
  | next hc hcs ih =>
    rw [List.cons_append, digits_next hc (hcs.head_ne rest), ih]
    rfl
  | apart hc hcs ih => exact digits_apart hc ih hcs.ne_nil

/-- What is read as digits is a numeral, unless nothing is read. -/
theorem digits_cases (h : digits cs = some (ds, rest)) :
    ds = [] ∧ rest = cs ∨ ∃ body, cs = body ++ rest ∧ IsNumeral body ds := by
  fun_induction digits cs generalizing ds rest with
  | case1 | case3 | case6 =>
    cases h
    exact .inl ⟨rfl, rfl⟩
  | case2 | case5 => cases h
  | case4 c r hne d hc d' ds' rest' hr ih =>
    cases h
    rcases ih hr with ⟨hnil, -⟩ | ⟨body, rfl, hbody⟩
    · exact absurd hnil (List.cons_ne_nil _ _)
    · exact .inr ⟨c :: '_' :: body, rfl, .apart hc hbody⟩
  | case7 c r hne hapart d hc ih =>
    obtain ⟨⟨ds', rest'⟩, hr, heq⟩ := Option.map_eq_some_iff.1 h
    cases heq
    rcases ih hr with ⟨rfl, rfl⟩ | ⟨body, rfl, hbody⟩
    · exact .inr ⟨[c], rfl, .digit hc⟩
    · exact .inr ⟨c :: body, rfl, .next hc hbody⟩

theorem sign_cases (cs : List Char) :
    ∃ signs, cs = signs ++ (sign cs).2 ∧ IsSign (sign cs).1 signs := by
  unfold sign
  split
  · exact ⟨['-'], rfl, .minus⟩
  · exact ⟨['+'], rfl, .plus⟩
  · exact ⟨[], rfl, .absent⟩

theorem sign_append (h : IsSign negative signs) (hbody : IsNumeral body ds) (rest : List Char) :
    sign (signs ++ (body ++ rest)) = (negative, body ++ rest) := by
  cases h with
  | plus | minus => rfl
  | absent =>
    obtain ⟨c, d, cs, rfl, hc⟩ := hbody.exists_cons
    obtain ⟨-, hplus, hminus⟩ := ne_mark_of_digitValue hc
    unfold sign
    split
    · next heq => exact absurd (List.cons.inj heq).1 hminus
    · next heq => exact absurd (List.cons.inj heq).1 hplus
    · rfl

theorem dropWhile_before (hbefore : ∀ c ∈ before, isOuterBlank c) (hsign : IsSign negative signs)
    (hbody : IsNumeral body ds) :
    (before ++ (signs ++ (body ++ rest))).dropWhile isOuterBlank = signs ++ (body ++ rest) := by
  refine (Formula.takeWhile_append_of_boundary _ hbefore fun c hc => ?_).2
  cases hsign with
  | plus | minus =>
    cases hc
    decide
  | absent =>
    obtain ⟨c', d, cs, rfl, hd⟩ := hbody.exists_cons
    cases hc
    exact isOuterBlank_of_digitValue hd

/-- What a text of the form of a literal is read as; only the number of its digits can be wrong. -/
theorem read_of_parts (hs : s.toList = before ++ (signs ++ (body ++ after)))
    (hbefore : ∀ c ∈ before, isOuterBlank c) (hafter : ∀ c ∈ after, isOuterBlank c)
    (hsign : IsSign negative signs) (hbody : IsNumeral body ds) :
    read s = (ofDigits ds).map (signed negative) := by
  have hdigits := digits_append hbody (endsNumeral_of_blank hafter)
  obtain ⟨d, ds, rfl⟩ := List.exists_cons_of_ne_nil hbody.ne_nil
  unfold read
  dsimp only
  rw [hs, dropWhile_before hbefore hsign hbody, sign_append hsign hbody, hdigits]
  dsimp only
  cases ofDigits (d :: ds) with
  | error e => rfl
  | ok n => exact if_pos (List.all_eq_true.2 hafter)

theorem ofDigits_eq_ok_iff {n : Nat} :
    ofDigits ds = .ok n ↔ ds.length ≤ Breakdown.digitLimit ∧ n = numberOfDigits ds := by
  unfold ofDigits
  split
  · next hlong => simp [Nat.not_le.2 hlong]
  · next hshort => simp [Nat.not_lt.1 hshort, eq_comm]

theorem exists_parts_of_read (h : read s = .ok i) : Writes s i := by
  unfold read at h
  dsimp only at h
  obtain ⟨signs, hsplit, hsign⟩ := sign_cases (s.toList.dropWhile isOuterBlank)
  split at h
  · next d ds rest hdigits =>
    rcases digits_cases hdigits with ⟨hnil, -⟩ | ⟨body, hbody, hnumeral⟩
    · exact absurd hnil (List.cons_ne_nil d ds)
    · cases hn : ofDigits (d :: ds) with
      | error e =>
        rw [hn] at h
        cases h
      | ok n =>
        rw [hn] at h
        obtain ⟨hlength, rfl⟩ := ofDigits_eq_ok_iff.1 hn
        dsimp only at h
        split at h
        · next hblank =>
          cases h
          refine ⟨s.toList.takeWhile isOuterBlank, signs, body, rest, _, d :: ds, ?_,
            fun c hc => List.mem_takeWhile_imp hc, List.all_eq_true.1 hblank, hsign, hnumeral,
            hlength, rfl⟩
          rw [← hbody, ← hsplit, List.takeWhile_append_dropWhile]
        · cases h
  · cases h

theorem read_eq_ok_iff : read s = .ok i ↔ Writes s i := by
  refine ⟨exists_parts_of_read, ?_⟩
  rintro ⟨before, signs, body, after, negative, ds, hs, hbefore, hafter, hsign, hbody, hlength, rfl⟩
  rw [read_of_parts hs hbefore hafter hsign hbody, ofDigits_eq_ok_iff.2 ⟨hlength, rfl⟩]
  rfl

theorem isNumeral_of_isDigit (hne : cs ≠ []) (h : ∀ c ∈ cs, c.isDigit) :
    IsNumeral cs (cs.filterMap digitValue?) := by
  induction cs with
  | nil => exact absurd rfl hne
  | cons c cs ih =>
    obtain ⟨hc, hcs⟩ := List.forall_mem_cons.1 h
    have hvalue := Decimal.digitValue_of_isDigit hc
    rw [List.filterMap_cons_some hvalue]
    cases cs with
    | nil => exact .digit hvalue
    | cons c' cs => exact .next hvalue (ih (List.cons_ne_nil c' cs) hcs)

/-- The decimal text of an integer writes no other integer. -/
theorem Writes.eq_of_toString (h : Writes (toString i) j) : j = i := by
  have hnumeral := isNumeral_of_isDigit Nat.toDigits_ne_nil (@Decimal.isDigit_toDigits i.natAbs)
  have hsign : IsSign (decide (i < 0)) (if decide (i < 0) then ['-'] else []) := by
    cases decide (i < 0)
    · exact .absent
    · exact .minus
  have hs : (toString i).toList = [] ++ ((if decide (i < 0) then ['-'] else []) ++
      (Nat.toDigits 10 i.natAbs ++ [])) := by
    rw [Json.Token.toList_toString, Json.Token.withSign, List.append_nil]
    cases decide (i < 0) <;> rfl
  rw [← read_eq_ok_iff, read_of_parts hs (fun _ h => absurd h List.not_mem_nil)
    (fun _ h => absurd h List.not_mem_nil) hsign hnumeral] at h
  cases hn : ofDigits ((Nat.toDigits 10 i.natAbs).filterMap digitValue?) with
  | error e =>
    rw [hn] at h
    cases h
  | ok n =>
    rw [hn] at h
    cases h
    obtain ⟨-, rfl⟩ := ofDigits_eq_ok_iff.1 hn
    change signed _ (Decimal.valueOf (Nat.toDigits 10 i.natAbs)) = i
    rw [Decimal.valueOf_toDigits, signed]
    split
    · next hneg =>
      have hneg := of_decide_eq_true hneg
      omega
    · next hpos =>
      have hpos := of_decide_eq_false (Bool.not_eq_true _ ▸ hpos)
      omega

end RobotHand.Integer
